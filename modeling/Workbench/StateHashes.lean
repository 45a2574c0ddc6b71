import Workbench.Fingerprints

/-!
# What a state hash tells apart

A state hash is made from the sorted records of the members, each after its
length, so the hashed bytes give back the members of the state.
-/

set_option autoImplicit false

namespace Workbench.StateHashes
open Workbench.Listing Workbench.Json Workbench.Ingestion Workbench.Fingerprints

def bigEndian : ℕ → ℕ → List ℕ
  | 0, _ => []
  | w+1, n => n/256^w%256 :: bigEndian w n

theorem bigEndian_length (w n : ℕ) : (bigEndian w n).length = w := by
  induction w with
  | zero => rfl
  | succ w ih => simp [bigEndian, ih]

theorem bigEndian_eq (w n : ℕ) :
    (List.range w).reverse.map (fun i => n/256^i%256) = bigEndian w n := by
  induction w with
  | zero => rfl
  | succ w ih => rw [List.range_succ, List.reverse_append, List.map_append, ih]; rfl

theorem bigEndian_inj {w m n : ℕ} (h : bigEndian w m = bigEndian w n) :
    m%256^w = n%256^w := by
  induction w with
  | zero => simp [Nat.mod_one]
  | succ w ih =>
    simp only [bigEndian, List.cons.injEq] at h
    have hlow := ih h.2
    rw [pow_succ, Nat.mod_mul, Nat.mod_mul, hlow, h.1]

theorem lengthPrefix_eq {bytes framed : List ℕ} (h : lengthPrefix bytes = some framed) :
    bytes.length < 256^8 ∧ framed = bigEndian 8 bytes.length ++ bytes := by
  unfold lengthPrefix at h
  by_cases hl : bytes.length < 256^8
  · rw [if_pos hl, bigEndian_eq, Option.some.injEq] at h
    exact ⟨hl, h.symm⟩
  · rw [if_neg hl] at h
    cases h

theorem frame_inj {a b fa fb s t : List ℕ} (ha : lengthPrefix a = some fa)
    (hb : lengthPrefix b = some fb) (h : fa ++ s = fb ++ t) : a = b ∧ s = t := by
  obtain ⟨hla, rfl⟩ := lengthPrefix_eq ha
  obtain ⟨hlb, rfl⟩ := lengthPrefix_eq hb
  rw [List.append_assoc, List.append_assoc] at h
  have hwidth : (bigEndian 8 a.length).length = (bigEndian 8 b.length).length := by
    rw [bigEndian_length, bigEndian_length]
  obtain ⟨hcount, hrest⟩ := List.append_inj h hwidth
  have hlen := bigEndian_inj hcount
  rw [Nat.mod_eq_of_lt hla, Nat.mod_eq_of_lt hlb] at hlen
  exact List.append_inj hrest hlen

theorem lengthPrefix_ne_nil {bytes framed : List ℕ} (h : lengthPrefix bytes = some framed) :
    framed ≠ [] := by
  obtain ⟨_, rfl⟩ := lengthPrefix_eq h
  intro h0
  have hlen := congrArg List.length h0
  rw [List.length_append, bigEndian_length, List.length_nil] at hlen
  omega

theorem frames_inj {l m framed framed' : List (List ℕ)}
    (hl : l.mapM lengthPrefix = some framed) (hm : m.mapM lengthPrefix = some framed')
    (h : framed.flatten = framed'.flatten) : l = m := by
  induction l generalizing m framed framed' with
  | nil =>
    cases m with
    | nil => rfl
    | cons b m =>
      simp only [List.mapM_nil, List.mapM_cons, Option.pure_def, Option.bind_eq_bind,
        Option.bind_eq_some_iff, Option.some.injEq] at hl hm
      obtain ⟨fb, hb, rest, _, rfl⟩ := hm
      rw [← hl, List.flatten_nil, List.flatten_cons] at h
      exact absurd (List.append_eq_nil_iff.mp h.symm).1 (lengthPrefix_ne_nil hb)
  | cons a l ih =>
    simp only [List.mapM_cons, Option.pure_def, Option.bind_eq_bind, Option.bind_eq_some_iff,
      Option.some.injEq] at hl
    obtain ⟨fa, ha, rest, hrest, rfl⟩ := hl
    cases m with
    | nil =>
      simp only [List.mapM_nil, Option.pure_def, Option.some.injEq] at hm
      rw [← hm, List.flatten_nil, List.flatten_cons] at h
      exact absurd (List.append_eq_nil_iff.mp h).1 (lengthPrefix_ne_nil ha)
    | cons b m =>
      simp only [List.mapM_cons, Option.pure_def, Option.bind_eq_bind, Option.bind_eq_some_iff,
        Option.some.injEq] at hm
      obtain ⟨fb, hb, rest', hrest', rfl⟩ := hm
      rw [List.flatten_cons, List.flatten_cons] at h
      obtain ⟨rfl, htail⟩ := frame_inj ha hb h
      rw [ih hrest hrest' htail]

theorem recordBytes_inj {kind : String} {metadata : List (String × Value)}
    {records records' : List (List ℕ)} {bytes : List ℕ}
    (h : recordBytes kind metadata records = some bytes)
    (h' : recordBytes kind metadata records' = some bytes) : records.Perm records' := by
  simp only [recordBytes, Option.bind_eq_bind, Option.bind_eq_some_iff, Option.some.injEq] at h h'
  obtain ⟨envelope, he, framed, hf, hbytes⟩ := h
  obtain ⟨envelope', he', framed', hf', hbytes'⟩ := h'
  rw [he, Option.some.injEq] at he'
  subst he'
  have hflat := List.append_cancel_left (hbytes.trans hbytes'.symm)
  have hsorted := frames_inj hf hf' hflat
  exact (sortOn_perm id records).symm.trans (hsorted ▸ sortOn_perm id records')

theorem memberRecord_injective : Function.Injective memberRecord := by
  intro m n h
  have he := canonicalJson_injective h
  simp only [Value.object.injEq, List.cons.injEq, Prod.mk.injEq, Value.text.injEq, true_and,
    and_true] at he
  exact Prod.ext he.1 he.2

theorem state_inj {sha : Sha256} {members members' : List (String × String)} {hash : String}
    (hapart : ∀ b ∈ stateBytes members, ∀ b' ∈ stateBytes members', sha.Apart b b')
    (h : resolvedStateHash sha members = some hash)
    (h' : resolvedStateHash sha members' = some hash) : members.Perm members' := by
  unfold resolvedStateHash at h h'
  obtain ⟨bytes, hb, hd⟩ := Option.map_eq_some_iff.mp h
  obtain ⟨bytes', hb', hd'⟩ := Option.map_eq_some_iff.mp h'
  have he := hapart bytes hb bytes' hb' (hd.trans hd'.symm)
  subst he
  unfold stateBytes at hb hb'
  split at hb
  · split at hb'
    · exact (List.map_perm_map_iff memberRecord_injective).mp (recordBytes_inj hb hb')
    · cases hb'
  · cases hb

end Workbench.StateHashes
