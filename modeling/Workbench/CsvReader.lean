import Mathlib.Data.List.Basic
import Mathlib.Data.String.Basic

/-!
# A strict reader of delimited text

Text comes in lines, each with its line end. The characters of a line and then
its end drive the reader, and a record is complete when a line leaves the
reader at the start of a record. What a writer with minimal quoting makes of a
table is read back under any delimiter, as long as no field is too long.
-/

set_option autoImplicit false

namespace Workbench.CsvReader

def mark : Char := Char.ofNat 34

def LineFeed (c : Char) : Prop := c = '\n' ∨ c = '\r'

instance (c : Char) : Decidable (LineFeed c) := inferInstanceAs (Decidable (_ ∨ _))

def EndsLine (c : Char) (rest : List Char) : Prop :=
  c = '\n' ∨ c = '\r' ∧ rest.head? ≠ some '\n'

instance (c : Char) (rest : List Char) : Decidable (EndsLine c rest) :=
  inferInstanceAs (Decidable (_ ∨ _))

def splitLines : List Char → List (List Char)
  | [] => []
  | c :: cs =>
    if EndsLine c cs then [c] :: splitLines cs
    else match splitLines cs with
      | [] => [[c]]
      | line :: lines => (c :: line) :: lines

def lineRest (cs : List Char) : List (List Char) := if cs = [] then [[]] else splitLines cs

theorem splitLines_ne_nil {cs : List Char} (h : cs ≠ []) : splitLines cs ≠ [] := by
  obtain ⟨c, cs, rfl⟩ := List.exists_cons_of_ne_nil h
  rw [splitLines]
  split_ifs
  · exact List.cons_ne_nil _ _
  · split <;> exact List.cons_ne_nil _ _

theorem lineRest_of_ne_nil {cs : List Char} (h : cs ≠ []) : lineRest cs = splitLines cs := if_neg h

theorem splitLines_end {c : Char} {cs : List Char} (h : EndsLine c cs) :
    splitLines (c :: cs) = [c] :: splitLines cs := if_pos h

theorem splitLines_within {c : Char} {cs : List Char} (h : ¬EndsLine c cs) :
    ∃ line lines, lineRest cs = line :: lines ∧ splitLines (c :: cs) = (c :: line) :: lines := by
  rw [splitLines, if_neg h]
  by_cases hcs : cs = []
  · subst hcs
    exact ⟨[], [], rfl, rfl⟩
  · obtain ⟨line, lines, hlines⟩ := List.exists_cons_of_ne_nil (splitLines_ne_nil hcs)
    rw [lineRest_of_ne_nil hcs, hlines]
    exact ⟨line, lines, rfl, rfl⟩

theorem not_endsLine {c : Char} (h : ¬LineFeed c) (cs : List Char) : ¬EndsLine c cs := by
  obtain ⟨hfeed, hreturn⟩ := not_or.mp h
  exact not_or.mpr ⟨hfeed, fun hend => hreturn hend.1⟩

structure Dialect where
  delimiter : Char
  /-- The longest field that is read. -/
  limit : ℕ

inductive State where
  | startRecord
  | startField
  | inField
  | inQuotedField
  | quoteInQuotedField
  | eatCrnl
deriving DecidableEq

structure Reader where
  state : State
  field : List Char
  fields : List (List Char)

inductive CsvError where
  | fieldLimit
  | delimiterExpected
  | newlineInField
  | unexpectedEnd
deriving DecidableEq

def Reader.fresh : Reader := ⟨.startRecord, [], []⟩

def Reader.saveField (r : Reader) (next : State) : Reader := ⟨next, [], r.fields ++ [r.field]⟩

def Dialect.addChar (d : Dialect) (r : Reader) (next : State) (c : Char) :
    Except CsvError Reader :=
  if d.limit ≤ r.field.length then .error .fieldLimit
  else .ok { r with state := next, field := r.field ++ [c] }

def Dialect.openField (d : Dialect) (r : Reader) (c : Char) : Except CsvError Reader :=
  if c = mark then .ok { r with state := .inQuotedField }
  else if c = d.delimiter then .ok (r.saveField .startField)
  else d.addChar r .inField c

def Dialect.processChar (d : Dialect) (r : Reader) (c : Option Char) : Except CsvError Reader :=
  match r.state, c with
  | .startRecord, none => .ok r
  | .startRecord, some c =>
    if LineFeed c then .ok { r with state := .eatCrnl } else d.openField r c
  | .startField, none => .ok (r.saveField .startRecord)
  | .startField, some c =>
    if LineFeed c then .ok (r.saveField .eatCrnl) else d.openField r c
  | .inField, none => .ok (r.saveField .startRecord)
  | .inField, some c =>
    if LineFeed c then .ok (r.saveField .eatCrnl)
    else if c = d.delimiter then .ok (r.saveField .startField)
    else d.addChar r .inField c
  | .inQuotedField, none => .ok r
  | .inQuotedField, some c =>
    if c = mark then .ok { r with state := .quoteInQuotedField }
    else d.addChar r .inQuotedField c
  | .quoteInQuotedField, none => .ok (r.saveField .startRecord)
  | .quoteInQuotedField, some c =>
    if c = mark then d.addChar r .inQuotedField c
    else if c = d.delimiter then .ok (r.saveField .startField)
    else if LineFeed c then .ok (r.saveField .eatCrnl)
    else .error .delimiterExpected
  | .eatCrnl, none => .ok { r with state := .startRecord }
  | .eatCrnl, some c => if LineFeed c then .ok r else .error .newlineInField

def Dialect.readLine (d : Dialect) : Reader → List Char → Except CsvError Reader
  | r, [] => d.processChar r none
  | r, c :: cs => do
    let r ← d.processChar r (some c)
    d.readLine r cs

inductive Failure where
  | undecodable
  | malformed (error : CsvError)
deriving DecidableEq

/-- The lines that a text file yields; a broken file cannot be decoded further. -/
structure TextStream where
  lines : List (List Char)
  broken : Bool

def TextStream.ofText (text : String) : TextStream := ⟨splitLines text.toList, false⟩

structure Reading where
  rows : List (List (List Char))
  failure : Option Failure

def Reading.cons (row : List (List Char)) (reading : Reading) : Reading :=
  ⟨row :: reading.rows, reading.failure⟩

def Reader.unfinished (r : Reader) : Prop := r.field ≠ [] ∨ r.state = .inQuotedField

instance (r : Reader) : Decidable r.unfinished := inferInstanceAs (Decidable (_ ∨ _))

def Dialect.readFrom (d : Dialect) (broken : Bool) : Reader → List (List Char) → Reading
  | r, [] =>
    if broken then ⟨[], some .undecodable⟩
    else if r.unfinished then ⟨[], some (.malformed .unexpectedEnd)⟩
    else ⟨[], none⟩
  | r, line :: lines =>
    match d.readLine r line with
    | .error e => ⟨[], some (.malformed e)⟩
    | .ok r' =>
      if r'.state = .startRecord then (d.readFrom broken .fresh lines).cons r'.fields
      else d.readFrom broken r' lines

def Dialect.read (d : Dialect) (stream : TextStream) : Reading :=
  d.readFrom stream.broken .fresh stream.lines

section Bounds
variable {d : Dialect} {r r' : Reader}

def Reader.Bounded (limit : ℕ) (r : Reader) : Prop :=
  r.field.length ≤ limit ∧ ∀ f ∈ r.fields, f.length ≤ limit

theorem Reader.Bounded.saveField {limit : ℕ} (h : r.Bounded limit) (next : State) :
    (r.saveField next).Bounded limit := by
  refine ⟨Nat.zero_le _, fun f hf => ?_⟩
  rcases List.mem_append.mp hf with hf | hf
  · exact h.2 f hf
  · exact List.mem_singleton.mp hf ▸ h.1

theorem addChar_bounded {next : State} {c : Char} (h : r.Bounded d.limit)
    (hr : d.addChar r next c = .ok r') : r'.Bounded d.limit := by
  unfold Dialect.addChar at hr
  split_ifs at hr with hlimit
  cases hr
  refine ⟨?_, h.2⟩
  simp only [List.length_append, List.length_singleton]
  omega

theorem openField_bounded {c : Char} (h : r.Bounded d.limit) (hr : d.openField r c = .ok r') :
    r'.Bounded d.limit := by
  unfold Dialect.openField at hr
  split_ifs at hr
  · cases hr
    exact h
  · cases hr
    exact h.saveField _
  · exact addChar_bounded h hr

theorem processChar_bounded {c : Option Char} (h : r.Bounded d.limit)
    (hr : d.processChar r c = .ok r') : r'.Bounded d.limit := by
  obtain ⟨state, field, fields⟩ := r
  cases state <;> cases c <;> simp only [Dialect.processChar] at hr
  case startRecord.some =>
    split_ifs at hr
    · cases hr
      exact h
    · exact openField_bounded h hr
  case startField.some =>
    split_ifs at hr
    · cases hr
      exact h.saveField _
    · exact openField_bounded h hr
  case inField.some =>
    split_ifs at hr
    · cases hr
      exact h.saveField _
    · cases hr
      exact h.saveField _
    · exact addChar_bounded h hr
  case inQuotedField.some =>
    split_ifs at hr
    · cases hr
      exact h
    · exact addChar_bounded h hr
  case quoteInQuotedField.some =>
    split_ifs at hr
    · exact addChar_bounded h hr
    · cases hr
      exact h.saveField _
    · cases hr
      exact h.saveField _
  case eatCrnl.some =>
    split_ifs at hr
    cases hr
    exact h
  case startField.none | inField.none | quoteInQuotedField.none =>
    cases hr
    exact h.saveField _
  case startRecord.none | inQuotedField.none | eatCrnl.none =>
    cases hr
    exact h

theorem readLine_bounded {line : List Char} (h : r.Bounded d.limit)
    (hr : d.readLine r line = .ok r') : r'.Bounded d.limit := by
  induction line generalizing r with
  | nil => exact processChar_bounded h hr
  | cons c cs ih =>
    rw [Dialect.readLine] at hr
    cases hc : d.processChar r (some c) with
    | error e =>
      rw [hc] at hr
      cases hr
    | ok x =>
      rw [hc] at hr
      exact ih (processChar_bounded h hc) hr

theorem fresh_bounded (limit : ℕ) : Reader.fresh.Bounded limit :=
  ⟨Nat.zero_le _, fun _ hf => absurd hf List.not_mem_nil⟩

theorem readFrom_bounded {broken : Bool} {lines : List (List Char)} (h : r.Bounded d.limit) :
    ∀ row ∈ (d.readFrom broken r lines).rows, ∀ f ∈ row, f.length ≤ d.limit := by
  induction lines generalizing r with
  | nil =>
    unfold Dialect.readFrom
    split_ifs <;> simp
  | cons line lines ih =>
    intro row hrow
    rw [Dialect.readFrom] at hrow
    cases hline : d.readLine r line with
    | error e =>
      rw [hline] at hrow
      exact absurd hrow List.not_mem_nil
    | ok r' =>
      have hbounded := readLine_bounded h hline
      rw [hline] at hrow
      simp only at hrow
      split_ifs at hrow
      · rcases List.mem_cons.mp hrow with rfl | hrow
        · exact hbounded.2
        · exact ih (fresh_bounded _) row hrow
      · exact ih hbounded row hrow

end Bounds

section Steps
variable {d : Dialect} {broken : Bool} {r r' r'' : Reader} {c : Char} {cs line : List Char}
  {lines : List (List Char)}

theorem readFrom_step (h : d.processChar r (some c) = .ok r') :
    d.readFrom broken r ((c :: line) :: lines) = d.readFrom broken r' (line :: lines) := by
  have hline : d.readLine r (c :: line) = d.readLine r' line := by
    rw [Dialect.readLine, h]
    rfl
  rw [Dialect.readFrom, hline, ← Dialect.readFrom]

theorem read_within (hc : ¬EndsLine c cs) (h : d.processChar r (some c) = .ok r') :
    d.readFrom broken r (splitLines (c :: cs)) = d.readFrom broken r' (lineRest cs) := by
  obtain ⟨line, lines, hrest, hsplit⟩ := splitLines_within hc
  rw [hsplit, hrest, readFrom_step h]

theorem read_across (hc : EndsLine c cs) (h : d.processChar r (some c) = .ok r')
    (hend : d.processChar r' none = .ok r'') (hstate : r''.state ≠ .startRecord) :
    d.readFrom broken r (splitLines (c :: cs)) = d.readFrom broken r'' (splitLines cs) := by
  rw [splitLines_end hc, readFrom_step h, Dialect.readFrom, Dialect.readLine, hend]
  simp only [if_neg hstate]

theorem read_record (hc : EndsLine c cs) (h : d.processChar r (some c) = .ok r')
    (hend : d.processChar r' none = .ok r'') (hstate : r''.state = .startRecord) :
    d.readFrom broken r (splitLines (c :: cs)) =
      (d.readFrom broken .fresh (splitLines cs)).cons r''.fields := by
  rw [splitLines_end hc, readFrom_step h, Dialect.readFrom, Dialect.readLine, hend]
  simp only [if_pos hstate]

theorem read_quoted (hcs : cs ≠ []) (h : d.processChar r (some c) = .ok r')
    (hstate : r'.state = .inQuotedField) :
    d.readFrom broken r (splitLines (c :: cs)) = d.readFrom broken r' (splitLines cs) := by
  by_cases hc : EndsLine c cs
  · have hend : d.processChar r' none = .ok r' := by
      obtain ⟨state, field, fields⟩ := r'
      obtain rfl : state = .inQuotedField := hstate
      rfl
    exact read_across hc h hend (hstate ▸ by decide)
  · rw [read_within hc h, lineRest_of_ne_nil hcs]

end Steps

def Quotable (delimiter c : Char) : Prop := c = delimiter ∨ c = mark ∨ LineFeed c

instance (delimiter c : Char) : Decidable (Quotable delimiter c) :=
  inferInstanceAs (Decidable (_ ∨ _))

def doubled : List Char → List Char
  | [] => []
  | c :: cs => if c = mark then mark :: mark :: doubled cs else c :: doubled cs

def quoted (cs : List Char) : List Char := mark :: doubled cs ++ [mark]

def writeField (delimiter : Char) (cs : List Char) : List Char :=
  if cs.any fun c => decide (Quotable delimiter c) then quoted cs else cs

def writeFields (delimiter : Char) : List (List Char) → List Char
  | [] => []
  | [cs] => writeField delimiter cs
  | cs :: fields => writeField delimiter cs ++ delimiter :: writeFields delimiter fields

def writeRecord (delimiter : Char) (fields : List (List Char)) : List Char :=
  (if fields = [[]] then quoted [] else writeFields delimiter fields) ++ ['\r', '\n']

def writeRecords (delimiter : Char) (records : List (List (List Char))) : List Char :=
  records.flatMap (writeRecord delimiter)

theorem writeFields_cons (delimiter : Char) (cs fs : List Char) (fields : List (List Char)) :
    writeFields delimiter (cs :: fs :: fields) =
      writeField delimiter cs ++ delimiter :: writeFields delimiter (fs :: fields) := rfl

structure Dialect.Proper (d : Dialect) : Prop where
  not_mark : d.delimiter ≠ mark
  not_feed : ¬LineFeed d.delimiter

theorem mark_within (cs : List Char) : ¬EndsLine mark cs := not_endsLine (by decide) cs

section Written
variable {d : Dialect} {broken : Bool} {field cs rest : List Char} {fields : List (List Char)}
  {r : Reader}

theorem addChar_ok {next : State} {c : Char} (h : r.field.length < d.limit) :
    d.addChar r next c = .ok { r with state := next, field := r.field ++ [c] } :=
  if_neg (by omega)

/-- What stands between quotes is read up to the closing quote. -/
theorem read_doubled (hlength : field.length+cs.length ≤ d.limit) :
    d.readFrom broken ⟨.inQuotedField, field, fields⟩ (splitLines (doubled cs ++ mark :: rest)) =
      d.readFrom broken ⟨.quoteInQuotedField, field ++ cs, fields⟩ (lineRest rest) := by
  induction cs generalizing field with
  | nil =>
    rw [List.append_nil]
    exact read_within (mark_within rest) rfl
  | cons c cs ih =>
    have hassoc : field ++ c :: cs = field ++ [c] ++ cs := by simp
    simp only [List.length_cons] at hlength
    have hfield : field.length < d.limit := by omega
    have hroom : (field ++ [c]).length+cs.length ≤ d.limit := by
      simp only [List.length_append, List.length_singleton]
      omega
    have hne : doubled cs ++ mark :: rest ≠ [] := by simp
    rw [hassoc, doubled, ← ih hroom]
    by_cases hc : c = mark
    · subst hc
      have hadd : d.processChar ⟨.quoteInQuotedField, field, fields⟩ (some mark) =
          .ok ⟨.inQuotedField, field ++ [mark], fields⟩ :=
        addChar_ok (r := ⟨.quoteInQuotedField, field, fields⟩) hfield
      rw [if_pos rfl, List.cons_append, List.cons_append, read_within (mark_within _) rfl,
        lineRest_of_ne_nil (List.cons_ne_nil _ _)]
      exact read_quoted hne hadd rfl
    · have hadd : d.processChar ⟨.inQuotedField, field, fields⟩ (some c) =
          .ok ⟨.inQuotedField, field ++ [c], fields⟩ :=
        (if_neg hc).trans
          (addChar_ok (r := ⟨.inQuotedField, field, fields⟩) hfield)
      rw [if_neg hc, List.cons_append]
      exact read_quoted hne hadd rfl

theorem read_plain (hplain : ∀ c ∈ cs, ¬Quotable d.delimiter c)
    (hlength : field.length+cs.length ≤ d.limit) :
    d.readFrom broken ⟨.inField, field, fields⟩ (lineRest (cs ++ rest)) =
      d.readFrom broken ⟨.inField, field ++ cs, fields⟩ (lineRest rest) := by
  induction cs generalizing field with
  | nil => rw [List.append_nil, List.nil_append]
  | cons c cs ih =>
    have hassoc : field ++ c :: cs = field ++ [c] ++ cs := by simp
    simp only [List.length_cons] at hlength
    obtain ⟨hdelimiter, hother⟩ := not_or.mp (hplain c List.mem_cons_self)
    obtain ⟨-, hfeed⟩ := not_or.mp hother
    have hadd : d.processChar ⟨.inField, field, fields⟩ (some c) =
        .ok ⟨.inField, field ++ [c], fields⟩ :=
      (if_neg hfeed).trans ((if_neg hdelimiter).trans
        (addChar_ok (r := ⟨.inField, field, fields⟩) (show field.length < d.limit by omega)))
    rw [hassoc, List.cons_append, lineRest_of_ne_nil (List.cons_ne_nil _ _),
      read_within (not_endsLine hfeed _) hadd]
    refine ih (fun x hx => hplain x (List.mem_cons_of_mem c hx)) ?_
    simp only [List.length_append, List.length_singleton]
    omega

def Reader.Starting (r : Reader) : Prop :=
  r.field = [] ∧ (r.state = .startRecord ∨ r.state = .startField)

/-- The reader after a written field: what may follow is a delimiter or the end
of the record. -/
structure Written (cs : List Char) (r r' : Reader) : Prop where
  field : r'.field = cs
  fields : r'.fields = r.fields
  state : r'.state = .inField ∨ r'.state = .quoteInQuotedField ∨ r'.state = r.state ∧ cs = []

theorem process_first {c : Char} (h : r.Starting) (hc : ¬LineFeed c) :
    d.processChar r (some c) = d.openField r c := by
  obtain ⟨state, field, fields⟩ := r
  obtain ⟨-, rfl | rfl⟩ := h <;> simp only [Dialect.processChar, if_neg hc]

theorem read_quotes (h : r.Starting) (hlength : cs.length ≤ d.limit) :
    d.readFrom broken r (lineRest (quoted cs ++ rest)) =
      d.readFrom broken ⟨.quoteInQuotedField, cs, r.fields⟩ (lineRest rest) := by
  have hopen : d.processChar r (some mark) = .ok { r with state := .inQuotedField } := by
    rw [process_first h (by decide), Dialect.openField, if_pos rfl]
  have hquoted : quoted cs ++ rest = mark :: (doubled cs ++ mark :: rest) := by
    simp [quoted]
  have hread : d.readFrom broken ⟨.inQuotedField, [], r.fields⟩
      (splitLines (doubled cs ++ mark :: rest)) =
        d.readFrom broken ⟨.quoteInQuotedField, [] ++ cs, r.fields⟩ (lineRest rest) :=
    read_doubled (by simpa using hlength)
  rw [hquoted, lineRest_of_ne_nil (List.cons_ne_nil _ _), read_within (mark_within _) hopen,
    lineRest_of_ne_nil (by simp), h.1]
  exact hread

/-- A written field is read. -/
theorem read_field (broken : Bool) (rest : List Char) (h : r.Starting)
    (hlength : cs.length ≤ d.limit) :
    ∃ r', Written cs r r' ∧ d.readFrom broken r (lineRest (writeField d.delimiter cs ++ rest)) =
      d.readFrom broken r' (lineRest rest) := by
  unfold writeField
  by_cases hs : (cs.any fun c => decide (Quotable d.delimiter c)) = true
  · rw [if_pos hs]
    exact ⟨⟨.quoteInQuotedField, cs, r.fields⟩, ⟨rfl, rfl, .inr (.inl rfl)⟩,
      read_quotes h hlength⟩
  · rw [if_neg hs]
    have hplain : ∀ c ∈ cs, ¬Quotable d.delimiter c := fun c hc hquotable =>
      hs (List.any_eq_true.mpr ⟨c, hc, decide_eq_true hquotable⟩)
    cases cs with
    | nil => exact ⟨r, ⟨h.1, rfl, .inr (.inr ⟨rfl, rfl⟩)⟩, rfl⟩
    | cons c cs =>
      obtain ⟨hdelimiter, hother⟩ := not_or.mp (hplain c List.mem_cons_self)
      obtain ⟨hmark, hfeed⟩ := not_or.mp hother
      have hroom : r.field.length < d.limit := by
        rw [h.1]
        simp only [List.length_cons] at hlength
        simp only [List.length_nil]
        omega
      have hopen : d.processChar r (some c) = .ok ⟨.inField, [c], r.fields⟩ := by
        rw [process_first h hfeed, Dialect.openField, if_neg hmark, if_neg hdelimiter,
          addChar_ok hroom, h.1]
        rfl
      have hrest : d.readFrom broken ⟨.inField, [c], r.fields⟩ (lineRest (cs ++ rest)) =
          d.readFrom broken ⟨.inField, [c] ++ cs, r.fields⟩ (lineRest rest) :=
        read_plain (fun x hx => hplain x (List.mem_cons_of_mem c hx))
          (show [c].length+cs.length ≤ d.limit by simpa [Nat.add_comm] using hlength)
      refine ⟨⟨.inField, c :: cs, r.fields⟩, ⟨rfl, rfl, .inl rfl⟩, ?_⟩
      rw [List.cons_append, lineRest_of_ne_nil (List.cons_ne_nil _ _),
        read_within (not_endsLine hfeed _) hopen, hrest]
      rfl

theorem Written.delimited (hd : d.Proper) {r' : Reader} (h : Written cs r r') (hr : r.Starting) :
    d.processChar r' (some d.delimiter) = .ok ⟨.startField, [], r.fields ++ [cs]⟩ := by
  obtain ⟨state, field, fields⟩ := r'
  obtain ⟨rfl, rfl, hstate⟩ := h
  rcases hstate with rfl | rfl | ⟨rfl, -⟩
  · simp only [Dialect.processChar, if_neg hd.not_feed, if_pos]
    rfl
  · simp only [Dialect.processChar, if_neg hd.not_mark, if_pos]
    rfl
  · rcases hr.2 with hs | hs <;> rw [hs] <;>
      simp only [Dialect.processChar, if_neg hd.not_feed, Dialect.openField, if_neg hd.not_mark,
        if_pos] <;> rfl

theorem Written.ended (hd : d.Proper) {r' : Reader} (h : Written cs r r')
    (hr : r.state = .startField ∨ r.state = .startRecord ∧ cs ≠ []) :
    d.readFrom broken r' (lineRest ('\r' :: '\n' :: rest)) =
      (d.readFrom broken .fresh (splitLines rest)).cons (r.fields ++ [cs]) := by
  have hreturn : ¬EndsLine '\r' ('\n' :: rest) := by
    rintro (h | ⟨-, h⟩)
    · exact absurd h (by decide)
    · exact h rfl
  have hmark : ¬('\r' : Char) = mark := by decide
  have hfeed : LineFeed '\r' := .inr rfl
  have hdelimiter : ¬('\r' : Char) = d.delimiter := fun heq => hd.not_feed (heq ▸ hfeed)
  have hsave : d.processChar r' (some '\r') = .ok ⟨.eatCrnl, [], r.fields ++ [cs]⟩ := by
    obtain ⟨state, field, fields⟩ := r'
    obtain ⟨rfl, rfl, hstate⟩ := h
    rcases hstate with rfl | rfl | ⟨rfl, hcs⟩
    · simp only [Dialect.processChar, if_pos hfeed]
      rfl
    · simp only [Dialect.processChar, if_neg hmark, if_neg hdelimiter, if_pos hfeed]
      rfl
    · have hs := hr.resolve_right fun hrecord => hrecord.2 hcs
      rw [hs]
      simp only [Dialect.processChar, if_pos hfeed]
      rfl
  have heat : d.processChar ⟨.eatCrnl, [], r.fields ++ [cs]⟩ (some '\n') =
      .ok ⟨.eatCrnl, [], r.fields ++ [cs]⟩ := rfl
  rw [lineRest_of_ne_nil (List.cons_ne_nil _ _), read_within hreturn hsave,
    lineRest_of_ne_nil (List.cons_ne_nil _ _), read_record (.inl rfl) heat rfl rfl]

theorem read_fields (hd : d.Proper) {written : List (List Char)} (hne : written ≠ [])
    (hlength : ∀ f ∈ written, f.length ≤ d.limit) (hr : r.Starting)
    (hstate : r.state = .startField ∨ r.state = .startRecord ∧ written ≠ [[]]) :
    d.readFrom broken r (lineRest (writeFields d.delimiter written ++ '\r' :: '\n' :: rest)) =
      (d.readFrom broken .fresh (splitLines rest)).cons (r.fields ++ written) := by
  induction written generalizing r with
  | nil => exact absurd rfl hne
  | cons cs others ih =>
    have hcs := hlength cs List.mem_cons_self
    cases others with
    | nil =>
      have hone : writeFields d.delimiter [cs] = writeField d.delimiter cs := rfl
      obtain ⟨r', hwritten, hread⟩ := read_field broken ('\r' :: '\n' :: rest) hr hcs
      rw [hone, hread]
      exact hwritten.ended hd (hstate.imp_right fun h => ⟨h.1, fun hnil => h.2 (by rw [hnil])⟩)
    | cons fs others =>
      obtain ⟨r', hwritten, hread⟩ := read_field broken
        (d.delimiter :: (writeFields d.delimiter (fs :: others) ++ '\r' :: '\n' :: rest)) hr hcs
      rw [writeFields_cons, List.append_assoc, List.cons_append, hread,
        lineRest_of_ne_nil (List.cons_ne_nil _ _),
        read_within (not_endsLine hd.not_feed _) (hwritten.delimited hd hr),
        ih (List.cons_ne_nil fs others) (fun f hf => hlength f (List.mem_cons_of_mem cs hf))
          ⟨rfl, .inr rfl⟩ (.inl rfl), List.append_assoc]
      rfl

theorem fresh_starting : Reader.fresh.Starting := ⟨rfl, .inl rfl⟩

theorem read_written (broken : Bool) (rest : List Char) (hd : d.Proper) {record : List (List Char)}
    (hlength : ∀ f ∈ record, f.length ≤ d.limit) :
    d.readFrom broken .fresh (splitLines (writeRecord d.delimiter record ++ rest)) =
      (d.readFrom broken .fresh (splitLines rest)).cons record := by
  have hne : writeRecord d.delimiter record ++ rest ≠ [] := by simp [writeRecord]
  rw [← lineRest_of_ne_nil hne]
  unfold writeRecord
  by_cases hempty : record = [[]]
  · subst hempty
    have hwritten : Written [] ⟨.startField, [], []⟩ ⟨.quoteInQuotedField, [], []⟩ :=
      ⟨rfl, rfl, .inr (.inl rfl)⟩
    rw [if_pos rfl, List.append_assoc, read_quotes fresh_starting (Nat.zero_le _)]
    exact hwritten.ended hd (.inl rfl)
  · rw [if_neg hempty, List.append_assoc]
    cases record with
    | nil =>
      have hreturn : ¬EndsLine '\r' ('\n' :: rest) := by
        rintro (h | ⟨-, h⟩)
        · exact absurd h (by decide)
        · exact h rfl
      have hblank : d.processChar .fresh (some '\r') = .ok ⟨.eatCrnl, [], []⟩ := rfl
      have heat : d.processChar ⟨.eatCrnl, [], []⟩ (some '\n') = .ok ⟨.eatCrnl, [], []⟩ := rfl
      show d.readFrom broken .fresh (lineRest ('\r' :: '\n' :: rest)) = _
      rw [lineRest_of_ne_nil (List.cons_ne_nil _ _), read_within hreturn hblank,
        lineRest_of_ne_nil (List.cons_ne_nil _ _), read_record (.inl rfl) heat rfl rfl]
    | cons f fs =>
      exact read_fields hd (List.cons_ne_nil f fs) hlength fresh_starting (.inr ⟨rfl, hempty⟩)

theorem read_records (hd : d.Proper) {records : List (List (List Char))}
    (hlength : ∀ record ∈ records, ∀ f ∈ record, f.length ≤ d.limit) :
    d.read ⟨splitLines (writeRecords d.delimiter records), false⟩ = ⟨records, none⟩ := by
  unfold Dialect.read
  induction records with
  | nil => rfl
  | cons record records ih =>
    have hread := read_written false (writeRecords d.delimiter records) hd
      (hlength record List.mem_cons_self)
    have hrest := ih fun other hother => hlength other (List.mem_cons_of_mem record hother)
    simp only at hrest ⊢
    rw [writeRecords, List.flatMap_cons]
    refine hread.trans ?_
    rw [hrest]
    rfl

end Written

def writeTable (delimiter : Char) (table : List (List String)) : String :=
  String.ofList (writeRecords delimiter (table.map fun row => row.map String.toList))

def readTable (delimiter : Char) (text : String) : List (List String) :=
  ((⟨delimiter, text.toList.length⟩ : Dialect).read (.ofText text)).rows.map fun record =>
    record.map String.ofList

theorem length_doubled (cs : List Char) : cs.length ≤ (doubled cs).length := by
  induction cs with
  | nil => exact le_rfl
  | cons c cs ih =>
    unfold doubled
    split_ifs
    · simp only [List.length_cons]
      omega
    · simp only [List.length_cons]
      omega

theorem length_writeField (delimiter : Char) (cs : List Char) :
    cs.length ≤ (writeField delimiter cs).length := by
  unfold writeField
  split_ifs
  · have h := length_doubled cs
    simp only [quoted, List.length_cons, List.length_append]
    omega
  · exact le_rfl

theorem length_writeFields (delimiter : Char) {fields : List (List Char)} {cs : List Char}
    (h : cs ∈ fields) : cs.length ≤ (writeFields delimiter fields).length := by
  induction fields with
  | nil => cases h
  | cons f fields ih =>
    have hfirst := length_writeField delimiter f
    cases fields with
    | nil =>
      rw [List.mem_singleton.mp h]
      exact hfirst
    | cons g fields =>
      rw [writeFields_cons, List.length_append, List.length_cons]
      rcases List.mem_cons.mp h with rfl | h
      · omega
      · have hrest := ih h
        omega

theorem length_writeRecords (delimiter : Char) {records : List (List (List Char))}
    {record : List (List Char)} (hrecord : record ∈ records) {cs : List Char} (h : cs ∈ record) :
    cs.length ≤ (writeRecords delimiter records).length := by
  have hwritten : cs.length ≤ (writeRecord delimiter record).length := by
    unfold writeRecord
    rw [List.length_append]
    split_ifs with hempty
    · rw [hempty, List.mem_singleton] at h
      rw [h]
      exact Nat.zero_le _
    · exact (length_writeFields delimiter h).trans (Nat.le_add_right _ _)
  refine hwritten.trans ?_
  obtain ⟨before, after, rfl⟩ := List.append_of_mem hrecord
  simp only [writeRecords, List.flatMap_append, List.flatMap_cons, List.length_append]
  omega

theorem readTable_writeTable {delimiter : Char} (hmark : delimiter ≠ mark)
    (hfeed : ¬LineFeed delimiter) (table : List (List String)) :
    readTable delimiter (writeTable delimiter table) = table := by
  have hrow : ∀ row : List String, (row.map String.toList).map String.ofList = row := by
    intro row
    rw [List.map_map]
    exact (List.map_congr_left fun s _ => String.ofList_toList).trans (List.map_id row)
  have hread := read_records (d := ⟨delimiter, (writeRecords delimiter
    (table.map fun row => row.map String.toList)).length⟩) ⟨hmark, hfeed⟩
    fun record hrecord f hf => length_writeRecords delimiter hrecord hf
  rw [readTable, writeTable, TextStream.ofText, String.toList_ofList, hread, List.map_map]
  exact (List.map_congr_left fun row _ => hrow row).trans (List.map_id table)

end Workbench.CsvReader
