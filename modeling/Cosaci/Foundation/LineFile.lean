import Cosaci.Foundation.Fallible
import Cosaci.Foundation.JsonTree
import Cosaci.Foundation.Table
import Cosaci.Foundation.TextRecords

/-!
# Files of records

A text with at most one record in a line is loaded line by line into some state.  What it
holds is a list of records, and loading is a fold over them; editing the lines edits the
list.
-/

namespace Cosaci.Foundation

/-- How records stand in the lines of a text. -/
structure LineFormat (ε ρ : Type) where
  /-- Whether a line has no record. -/
  skips : List Char → Bool
  /-- The record in a line, whose number is only for the error. -/
  parse : Nat → List Char → Except ε ρ
  numbered : ∀ {first second : Nat} {line : List Char} {record : ρ},
    parse first line = .ok record → parse second line = .ok record

variable {lines : List (List Char)}

namespace LineFormat

variable {ε ρ σ : Type} (format : LineFormat ε ρ)

/-- The loop over the lines, with the number of the next line and the state so far. -/
def load (insert : σ → ρ → Except ε σ) (lineno : Nat) (state : σ) :
    List (List Char) → Except ε σ
  | [] => .ok state
  | line :: rest =>
      if format.skips (trim line) then
        load insert (lineno + 1) state rest
      else do
        let record ← format.parse lineno (trim line)
        let state ← insert state record
        load insert (lineno + 1) state rest

/-- The records that lines hold. -/
inductive Holds : List (List Char) → List ρ → Prop
  | nil : Holds [] []
  | skipped {line : List Char} {rest : List (List Char)} {records : List ρ}
      (blank : format.skips (trim line) = true) (later : Holds rest records) :
      Holds (line :: rest) records
  | record {line : List Char} {rest : List (List Char)} {record : ρ} {records : List ρ}
      (counted : format.skips (trim line) = false)
      (parsed : format.parse 0 (trim line) = .ok record) (later : Holds rest records) :
      Holds (line :: rest) (record :: records)

variable {format}

/-- Lines load if they hold records that can be inserted one after the other. -/
theorem load_eq_ok_iff {insert : σ → ρ → Except ε σ} {lineno : Nat} {state loaded : σ} :
    format.load insert lineno state lines = .ok loaded ↔
      ∃ records, format.Holds lines records ∧ records.foldlM insert state = .ok loaded := by
  induction lines generalizing lineno state with
  | nil =>
      constructor
      · intro load
        exact ⟨[], .nil, load⟩
      · rintro ⟨records, holds, folded⟩
        cases holds
        exact folded
  | cons line rest ih =>
      rw [load]
      cases blank : format.skips (trim line) with
      | true =>
          rw [if_pos rfl, ih]
          constructor
          · rintro ⟨records, holds, folded⟩
            exact ⟨records, .skipped blank holds, folded⟩
          · rintro ⟨records, holds, folded⟩
            cases holds with
            | skipped _ later => exact ⟨records, later, folded⟩
            | record counted => rw [blank] at counted; cases counted
      | false =>
          rw [if_neg Bool.false_ne_true]
          constructor
          · intro load
            obtain ⟨record, parsed, load⟩ := bind_eq_ok.mp load
            obtain ⟨next, inserted, load⟩ := bind_eq_ok.mp load
            obtain ⟨records, holds, folded⟩ := ih.mp load
            refine ⟨record :: records, .record blank (format.numbered parsed) holds, ?_⟩
            rw [List.foldlM_cons]
            exact bind_eq_ok.mpr ⟨next, inserted, folded⟩
          · rintro ⟨records, holds, folded⟩
            cases holds with
            | skipped skipped => rw [blank] at skipped; cases skipped
            | record _ parsed later =>
                rw [List.foldlM_cons] at folded
                obtain ⟨next, inserted, folded⟩ := bind_eq_ok.mp folded
                exact bind_eq_ok.mpr ⟨_, format.numbered parsed,
                  bind_eq_ok.mpr ⟨next, inserted, ih.mpr ⟨_, later, folded⟩⟩⟩

namespace Holds

theorem append {lines more : List (List Char)} {records others : List ρ}
    (holds : format.Holds lines records) (later : format.Holds more others) :
    format.Holds (lines ++ more) (records ++ others) := by
  induction holds with
  | nil => exact later
  | skipped blank _ ih => exact .skipped blank ih
  | record counted parsed _ ih => exact .record counted parsed ih

/-- Only the trimmed lines matter. -/
theorem congr_trim {lines others : List (List Char)} {records : List ρ}
    (holds : format.Holds lines records) (same : others.map trim = lines.map trim) :
    format.Holds others records := by
  induction holds generalizing others with
  | nil =>
      rw [List.map_nil, List.map_eq_nil_iff] at same
      rw [same]
      exact .nil
  | skipped blank _ ih =>
      obtain ⟨line, rest, rfl, trimmed, behind⟩ := List.map_eq_cons_iff.mp same
      rw [← trimmed] at blank
      exact .skipped blank (ih behind)
  | record counted parsed _ ih =>
      obtain ⟨line, rest, rfl, trimmed, behind⟩ := List.map_eq_cons_iff.mp same
      rw [← trimmed] at counted parsed
      exact .record counted parsed (ih behind)

/-- Lines are filtered as their records are. -/
theorem filter {records : List ρ} (holds : format.Holds lines records) {keepLine : List Char → Bool}
    {keep : ρ → Bool} (blank : ∀ line, format.skips (trim line) = true → keepLine line = true)
    (agree : ∀ line record, format.skips (trim line) = false →
      format.parse 0 (trim line) = .ok record → keepLine line = keep record) :
    format.Holds (lines.filter keepLine) (records.filter keep) := by
  induction holds with
  | nil => exact .nil
  | @skipped line _ _ skipped _ ih =>
      rw [List.filter_cons_of_pos (blank line skipped)]
      exact .skipped skipped ih
  | @record line _ record _ counted parsed _ ih =>
      have same := agree line record counted parsed
      cases kept : keep record with
      | true =>
          rw [List.filter_cons_of_pos (same.trans kept), List.filter_cons_of_pos kept]
          exact .record counted parsed ih
      | false =>
          rw [List.filter_cons_of_neg (by simp [same, kept]),
            List.filter_cons_of_neg (by simp [kept])]
          exact ih

/-- Whether some line passes a test that blank lines fail. -/
theorem any_eq {records : List ρ} (holds : format.Holds lines records) {testLine : List Char → Bool}
    {test : ρ → Bool} (blank : ∀ line, format.skips (trim line) = true → testLine line = false)
    (agree : ∀ line record, format.skips (trim line) = false →
      format.parse 0 (trim line) = .ok record → testLine line = test record) :
    lines.any testLine = records.any test := by
  induction holds with
  | nil => rfl
  | @skipped line _ _ skipped _ ih => rw [List.any_cons, blank line skipped, Bool.false_or, ih]
  | @record line _ record _ counted parsed _ ih =>
      rw [List.any_cons, List.any_cons, agree line record counted parsed, ih]

/-- Every line is skipped or has a record. -/
theorem line_cases {records : List ρ} (holds : format.Holds lines records) {line : List Char}
    (member : line ∈ lines) :
    format.skips (trim line) = true ∨
      ∃ record, format.skips (trim line) = false ∧ format.parse 0 (trim line) = .ok record := by
  induction holds with
  | nil => cases member
  | skipped blank _ ih =>
      rcases List.mem_cons.mp member with rfl | later
      · exact Or.inl blank
      · exact ih later
  | record counted parsed _ ih =>
      rcases List.mem_cons.mp member with rfl | later
      · exact Or.inr ⟨_, counted, parsed⟩
      · exact ih later

end Holds

/-- A text that is written line by line holds what the lines do. -/
theorem holds_unlines_iff {records : List ρ} (plain : ∀ line ∈ lines, '\n' ∉ line) :
    format.Holds (textLines (unlines lines)) records ↔ format.Holds lines records := by
  have trimmed : (textLines (unlines lines)).map trim = lines.map trim := by
    rw [textLines_unlines plain, List.map_map]
    exact List.map_congr_left fun line _ => trim_stripReturn line true
  exact ⟨fun holds => holds.congr_trim trimmed.symm, fun holds => holds.congr_trim trimmed⟩

end LineFormat

/-! ## Records with keys -/

section Keyed

variable {κ ρ : Type} [DecidableEq κ] (key : ρ → κ)

/-- The last record of every key. -/
def latestBy (records : List ρ) : κ → Option ρ :=
  Table.lastValue (records.map fun record => (key record, record))

theorem latestBy_concat (records : List ρ) (record : ρ) :
    latestBy key (records ++ [record]) =
      Function.update (latestBy key records) (key record) (some record) := by
  funext id
  rw [Function.update_apply]
  simp only [latestBy, Table.lastValue, List.map_append, List.map_cons, List.map_nil,
    List.reverse_append, List.reverse_cons, List.reverse_nil, List.nil_append,
    List.singleton_append, List.find?_cons]
  by_cases same : key record = id
  · simp [same]
  · simp [same, Ne.symm same]

theorem latestBy_filter (records : List ρ) (id : κ) :
    latestBy key (records.filter fun record => key record ≠ id) =
      Function.update (latestBy key records) id none := by
  induction records using List.reverseRecOn with
  | nil =>
      funext other
      simp [latestBy, Table.lastValue, Function.update_apply]
  | append_singleton records record ih =>
      rw [List.filter_append, latestBy_concat]
      by_cases own : key record = id
      · rw [List.filter_cons_of_neg (by simp [own]), List.filter_nil, List.append_nil, ih, own,
          Function.update_idem]
      · rw [List.filter_cons_of_pos (by simp [own]), List.filter_nil, latestBy_concat, ih,
          Function.update_comm own]

theorem isSome_latestBy (records : List ρ) (id : κ) :
    (latestBy key records id).isSome = records.any fun record => key record = id := by
  induction records using List.reverseRecOn with
  | nil => rfl
  | append_singleton records record ih =>
      rw [latestBy_concat, List.any_append, List.any_cons, List.any_nil, Bool.or_false, ← ih,
        Function.update_apply]
      by_cases own : id = key record
      · simp [own]
      · simp [own, Ne.symm own]

variable {key}

theorem mem_of_latestBy {records : List ρ} {id : κ} {record : ρ}
    (found : latestBy key records id = some record) : record ∈ records ∧ key record = id := by
  obtain ⟨pair, listed, rfl⟩ := Option.map_eq_some_iff.mp found
  have same : pair.1 = id := by simpa using List.find?_some listed
  obtain ⟨other, member, rfl⟩ :=
    List.mem_map.mp (List.mem_reverse.mp (List.mem_of_find?_eq_some listed))
  exact ⟨member, same⟩

/-- Insertion into a state that knows one record for each key, and refuses a second one. -/
structure InsertsNew {ε σ : Type} (key : ρ → κ) (insert : σ → ρ → Except ε σ)
    (get : σ → κ → Option ρ) : Prop where
  accepts {state : σ} {record : ρ} :
    (∃ next, insert state record = .ok next) ↔ get state (key record) = none
  updates {state next : σ} {record : ρ} (inserted : insert state record = .ok next) :
    get next = Function.update (get state) (key record) (some record)

/-- Keys stay distinct when the new one has no record yet. -/
theorem nodup_map_concat_iff (records : List ρ) (record : ρ) :
    ((records ++ [record]).map key).Nodup ↔
      latestBy key records (key record) = none ∧ (records.map key).Nodup := by
  have new : latestBy key records (key record) = none ↔ key record ∉ records.map key := by
    rw [← Option.not_isSome_iff_eq_none, isSome_latestBy]
    simp
  rw [List.map_append, List.map_singleton, ← List.concat_eq_append, List.nodup_concat, new]

/-- Records can be inserted one after the other when no two have the same key. -/
theorem InsertsNew.foldlM_iff {ε σ : Type} {insert : σ → ρ → Except ε σ}
    {get : σ → κ → Option ρ} (inserts : InsertsNew key insert get) {start : σ}
    (empty : get start = fun _ => none) (records : List ρ) (known : κ → Option ρ) :
    (∃ loaded, records.foldlM insert start = .ok loaded ∧ get loaded = known) ↔
      (records.map key).Nodup ∧ latestBy key records = known := by
  induction records using List.reverseRecOn generalizing known with
  | nil =>
      refine ⟨?_, fun same => ⟨start, rfl, empty.trans same.2⟩⟩
      rintro ⟨loaded, folded, rfl⟩
      cases folded
      exact ⟨List.nodup_nil, empty.symm⟩
  | append_singleton records record ih =>
      rw [nodup_map_concat_iff, latestBy_concat]
      simp only [List.foldlM_append, List.foldlM_cons, List.foldlM_nil, bind_pure, bind_eq_ok]
      constructor
      · rintro ⟨loaded, ⟨before, folded, inserted⟩, rfl⟩
        obtain ⟨distinct, same⟩ := (ih (get before)).mp ⟨before, folded, rfl⟩
        rw [same, inserts.updates inserted]
        exact ⟨⟨inserts.accepts.mp ⟨loaded, inserted⟩, distinct⟩, rfl⟩
      · rintro ⟨⟨fresh, distinct⟩, rfl⟩
        obtain ⟨before, folded, same⟩ := (ih _).mpr ⟨distinct, rfl⟩
        rw [← same] at fresh ⊢
        obtain ⟨loaded, inserted⟩ := inserts.accepts.mpr fresh
        exact ⟨loaded, ⟨before, folded, inserted⟩, inserts.updates inserted⟩

/-- Lines load to what they hold, if no two records have the same key. -/
theorem InsertsNew.load_iff {ε σ : Type} {insert : σ → ρ → Except ε σ} {get : σ → κ → Option ρ}
    (inserts : InsertsNew key insert get) {start : σ} (empty : get start = fun _ => none)
    {format : LineFormat ε ρ} {lineno : Nat} {known : κ → Option ρ} :
    (∃ loaded, format.load insert lineno start lines = .ok loaded ∧ get loaded = known) ↔
      ∃ records, format.Holds lines records ∧ (records.map key).Nodup ∧
        latestBy key records = known := by
  simp only [LineFormat.load_eq_ok_iff, ← inserts.foldlM_iff empty]
  constructor
  · rintro ⟨loaded, ⟨records, holds, folded⟩, same⟩
    exact ⟨records, holds, loaded, folded, same⟩
  · rintro ⟨records, holds, loaded, folded, same⟩
    exact ⟨loaded, ⟨records, holds, folded⟩, same⟩

end Keyed

/-! ## Signed integers -/

theorem solid_integer (value : Int) : Solid (Json.integer value) := by
  cases value with
  | ofNat value => exact solid_number value
  | negSucc value =>
      refine ⟨List.cons_ne_nil _ _, ?_⟩
      rw [Json.integer, List.forall_mem_cons]
      exact ⟨by decide, (solid_number (value + 1)).2⟩

/-- A printed signed number is read back. -/
theorem parseI64_integer (value : Int64) : parseI64 (Json.integer value.toInt) = .ok value := by
  have lower := value.le_toInt
  have upper := value.toInt_lt
  have back : Int64.ofInt value.toInt = value := Int64.ofInt_toInt value
  rw [parseI64]
  cases shown : value.toInt with
  | ofNat number =>
      rw [shown] at upper back
      have small : number < 2 ^ 63 := Int.ofNat_lt.mp upper
      rw [Json.integer, readSigned_of_head (number_ne_nil _) (head?_number _ (by decide))
        (head?_number _ (by decide)), readDecimal_number small]
      exact congrArg Except.ok back
  | negSucc number =>
      rw [shown] at lower back
      have small : number + 1 < 2 ^ 63 + 1 := by omega
      rw [Json.integer, readSigned_minus (number_ne_nil _), readDecimal_number small]
      exact congrArg Except.ok back

end Cosaci.Foundation
