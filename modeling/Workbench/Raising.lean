import Mathlib.Data.List.Basic
import Mathlib.Data.List.Forall2

/-!
# Outcomes of checked code

Code that may raise returns its value or the failure it raises. The lemmas
read a successful run backwards: what every step of it returned.
-/

set_option autoImplicit false

namespace Workbench.Raising

inductive Failure where
  | domainValidation (message : String)
  | overflow
  | arithmetic
  | missingKey
deriving DecidableEq

abbrev Outcome := Except Failure

def demand {ε : Type} (p : Prop) [Decidable p] (failure : ε) : Except ε Unit :=
  if p then .ok () else .error failure

def fetch {α ε : Type} (failure : ε) : Option α → Except ε α
  | some a => .ok a
  | none => .error failure

def require (p : Prop) [Decidable p] (message : String) : Outcome Unit :=
  demand p (.domainValidation message)

def check (p : Prop) [Decidable p] (message : String) : Outcome (PLift p) :=
  if h : p then .ok ⟨h⟩ else .error (.domainValidation message)

theorem check_true {p : Prop} [Decidable p] {message : String} (h : p) :
    check p message = .ok ⟨h⟩ := dif_pos h

variable {ε α β γ : Type}

@[simp] theorem bind_ok {x : Except ε α} {f : α → Except ε β} {b : β} :
    (x >>= f) = .ok b ↔ ∃ a, x = .ok a ∧ f a = .ok b := by
  cases x with
  | error e => simp [bind, Except.bind]
  | ok a => simp [bind, Except.bind]

@[simp] theorem ok_bind (a : α) (f : α → Except ε β) : ((.ok a : Except ε α) >>= f) = f a := rfl

@[simp] theorem bind_error_eq (e : ε) (f : α → Except ε β) :
    ((.error e : Except ε α) >>= f) = .error e := rfl

@[simp] theorem bind_eq_error {x : Except ε α} {f : α → Except ε β} {e : ε} :
    (x >>= f) = .error e ↔ x = .error e ∨ ∃ a, x = .ok a ∧ f a = .error e := by
  cases x with
  | error e => simp [bind, Except.bind]
  | ok a => simp [bind, Except.bind]

@[simp] theorem pure_ok {a b : α} : (pure a : Except ε α) = .ok b ↔ a = b := by
  simp [pure, Except.pure]

@[simp] theorem demand_ok {p : Prop} [Decidable p] {failure : ε} {u : Unit} :
    demand p failure = .ok u ↔ p := by
  unfold demand
  by_cases h : p <;> simp [h]

@[simp] theorem demand_error {p : Prop} [Decidable p] {failure e : ε} :
    demand p failure = .error e ↔ ¬p ∧ failure = e := by
  unfold demand
  by_cases h : p <;> simp [h]

@[simp] theorem fetch_ok {failure : ε} {x : Option α} {a : α} :
    fetch failure x = .ok a ↔ x = some a := by
  cases x <;> simp [fetch]

@[simp] theorem fetch_error {failure e : ε} {x : Option α} :
    fetch failure x = .error e ↔ x = none ∧ failure = e := by
  cases x <;> simp [fetch]

@[simp] theorem require_ok {p : Prop} [Decidable p] {message : String} {u : Unit} :
    require p message = .ok u ↔ p := demand_ok

@[simp] theorem require_true {message : String} : require True message = .ok () := by
  simp [require, demand]

@[simp] theorem map_ok {x : Except ε α} {f : α → β} {b : β} :
    f <$> x = .ok b ↔ ∃ a, x = .ok a ∧ f a = b := by
  cases x <;> simp [Functor.map, Except.map]

theorem map_eq_error {x : Except ε α} {f : α → β} {e : ε} :
    f <$> x = .error e ↔ x = .error e := by
  cases x <;> simp [Functor.map, Except.map]

@[simp] theorem exists_require {p : Prop} [Decidable p] {message : String} {q : Unit → Prop} :
    (∃ u, require p message = .ok u ∧ q u) ↔ p ∧ q () := by
  constructor
  · rintro ⟨u, hu, hq⟩
    exact ⟨require_ok.mp hu, hq⟩
  · rintro ⟨hp, hq⟩
    exact ⟨(), require_ok.mpr hp, hq⟩

theorem ok_of_toOption {x : Except ε α} {f : α → β} {b : β} (h : x.toOption.map f = some b) :
    ∃ a, x = .ok a ∧ f a = b := by
  cases x with
  | error e => simp [Except.toOption] at h
  | ok a => exact ⟨a, rfl, Option.some.inj h⟩

theorem toOption_ok {x : Except ε α} {a : α} (h : x.toOption = some a) : x = .ok a := by
  cases x with
  | error e => simp [Except.toOption] at h
  | ok b => exact congrArg Except.ok (Option.some.inj h)

theorem mapM_ok {f : α → Except ε β} {l : List α} {m : List β} :
    l.mapM f = .ok m ↔ List.Forall₂ (fun a b => f a = .ok b) l m := by
  induction l generalizing m with
  | nil =>
    rw [List.mapM_nil, pure_ok, List.forall₂_nil_left_iff]
    exact eq_comm
  | cons a l ih =>
    rw [List.mapM_cons, List.forall₂_cons_left_iff]
    simp only [bind_ok, pure_ok, ih]
    constructor
    · rintro ⟨b, hb, bs, hbs, rfl⟩
      exact ⟨b, bs, hb, hbs, rfl⟩
    · rintro ⟨b, bs, hb, hbs, rfl⟩
      exact ⟨b, hb, bs, hbs, rfl⟩

theorem mapM_mem {f : α → Except ε β} {l : List α} {m : List β} (h : l.mapM f = .ok m) {a : α}
    (ha : a ∈ l) : ∃ b ∈ m, f a = .ok b := by
  have h2 := mapM_ok.mp h
  induction h2 with
  | nil => simp at ha
  | @cons x y l m hxy _ ih =>
    rcases List.mem_cons.mp ha with rfl | ha
    · exact ⟨y, by simp, hxy⟩
    · obtain ⟨b, hb, hf⟩ := ih (by assumption |> mapM_ok.mpr) ha
      exact ⟨b, by simp [hb], hf⟩

theorem mapM_mem_right {f : α → Except ε β} {l : List α} {m : List β} (h : l.mapM f = .ok m)
    {b : β} (hb : b ∈ m) : ∃ a ∈ l, f a = .ok b := by
  have h2 := mapM_ok.mp h
  clear h
  induction h2 with
  | nil => simp at hb
  | @cons x y l m hxy _ ih =>
    rcases List.mem_cons.mp hb with rfl | hb
    · exact ⟨x, by simp, hxy⟩
    · obtain ⟨a, ha, hf⟩ := ih hb
      exact ⟨a, by simp [ha], hf⟩

theorem mapM_total {f : α → Except ε β} {g : α → β} {l : List α}
    (h : ∀ a ∈ l, f a = .ok (g a)) : l.mapM f = .ok (l.map g) := by
  induction l with
  | nil => rfl
  | cons a l ih =>
    rw [List.mapM_cons, h a (by simp), ih fun b hb => h b (by simp [hb])]
    rfl

theorem mapM_exists {f : α → Except ε β} {l : List α} (h : ∀ a ∈ l, ∃ b, f a = .ok b) :
    ∃ m, l.mapM f = .ok m := by
  induction l with
  | nil => exact ⟨[], rfl⟩
  | cons a l ih =>
    obtain ⟨b, hb⟩ := h a (by simp)
    obtain ⟨m, hm⟩ := ih fun x hx => h x (by simp [hx])
    exact ⟨b::m, by rw [List.mapM_cons, hb, hm]; rfl⟩

theorem mapM_map {f : α → Except ε β} {l : List α} {m : List β} (h : l.mapM f = .ok m)
    {p : α → γ} {q : β → γ} (hpq : ∀ a ∈ l, ∀ b, f a = .ok b → q b = p a) :
    m.map q = l.map p := by
  have h2 := mapM_ok.mp h
  clear h
  induction h2 with
  | nil => rfl
  | @cons x y l m hxy _ ih =>
    rw [List.map_cons, List.map_cons, hpq x (by simp) y hxy,
      ih fun a ha => hpq a (by simp [ha])]

theorem foldlM_invariant {f : β → α → Except ε β} {P : β → Prop} {l : List α} {b c : β}
    (h : l.foldlM f b = .ok c) (hb : P b)
    (step : ∀ a ∈ l, ∀ x y, f x a = .ok y → P x → P y) : P c := by
  induction l generalizing b with
  | nil =>
    rw [List.foldlM_nil, pure_ok] at h
    exact h ▸ hb
  | cons a l ih =>
    rw [List.foldlM_cons, bind_ok] at h
    obtain ⟨x, hx, h⟩ := h
    exact ih h (step a (by simp) b x hx hb) fun y hy => step y (by simp [hy])

end Workbench.Raising
