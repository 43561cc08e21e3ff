import Mathlib.Algebra.Ring.Int.Defs
import Mathlib.Algebra.Ring.Nat
import Lockstep.Document.Datum
import Lockstep.Proofs.Value.TypeText

/-!
# Values in documents

What is written of a value is read as that value: integers, since each kind is written
within its bounds, and the types that are readable.  A list is read back if its items are
(`Datum.toList?_array`).

`Datum.IsJson` singles out the data that are JSON values: no floating-point numbers,
integers of at most 64 bits, records with distinct names.
-/

namespace Lockstep.Datum

/-! ## JSON values -/

/-- A datum is a JSON value, with integers for its numbers. -/
inductive IsJson : Datum → Prop where
  | null : IsJson .null
  | bool (b : Bool) : IsJson (.bool b)
  | int {n : Int} : -2 ^ 63 ≤ n → n < 2 ^ 64 → IsJson (.int n)
  | text (s : String) : IsJson (.text s)
  | array {items : List Datum} : (∀ d ∈ items, IsJson d) → IsJson (.array items)
  | object {fields : List (String × Datum)} : (fields.map Prod.fst).Nodup →
      (∀ d ∈ fields.map Prod.snd, IsJson d) → IsJson (.object fields)

theorem isJson_nat {n : Nat} (h : n < 2 ^ 64) : IsJson (.int n) := .int (by omega) (by omega)

theorem isJson_array_map {α : Type} {write : α → Datum} {items : List α}
    (h : ∀ x ∈ items, (write x).IsJson) : IsJson (.array (items.map write)) := by
  refine .array fun d hd => ?_
  obtain ⟨x, hx, rfl⟩ := List.mem_map.mp hd
  exact h x hx

/-! ## Numbers -/

theorem toInt?_int {least greatest n : Int} (hleast : least ≤ n) (hgreatest : n ≤ greatest) :
    toInt? least greatest (.int n) = some n := if_pos ⟨hleast, hgreatest⟩

@[simp]
theorem toInt8?_int (v : Int8) : toInt8? (.int v.toInt) = some v := by
  rw [toInt8?, toInt?_int v.minValue_le_toInt v.toInt_le, Option.map_some, Int8.ofInt_toInt]

@[simp]
theorem toInt16?_int (v : Int16) : toInt16? (.int v.toInt) = some v := by
  rw [toInt16?, toInt?_int v.minValue_le_toInt v.toInt_le, Option.map_some, Int16.ofInt_toInt]

@[simp]
theorem toInt32?_int (v : Int32) : toInt32? (.int v.toInt) = some v := by
  rw [toInt32?, toInt?_int v.minValue_le_toInt v.toInt_le, Option.map_some, Int32.ofInt_toInt]

@[simp]
theorem toInt64?_int (v : Int64) : toInt64? (.int v.toInt) = some v := by
  rw [toInt64?, toInt?_int v.minValue_le_toInt v.toInt_le, Option.map_some, Int64.ofInt_toInt]

theorem toNat?_int {limit n : Nat} (h : n < limit) : toNat? limit (.int n) = some n := by
  rw [toNat?, toInt?_int (by omega) (by omega), Option.map_some, Int.toNat_natCast]

@[simp]
theorem toUInt16?_int (n : UInt16) : toUInt16? (.int n.toNat) = some n := by
  rw [toUInt16?, toNat?_int n.toNat_lt_size, Option.map_some, UInt16.ofNat_toNat]

@[simp]
theorem toUInt32?_int (n : UInt32) : toUInt32? (.int n.toNat) = some n := by
  rw [toUInt32?, toNat?_int n.toNat_lt_size, Option.map_some, UInt32.ofNat_toNat]

@[simp]
theorem toUInt64?_int (n : UInt64) : toUInt64? (.int n.toNat) = some n := by
  rw [toUInt64?, toNat?_int n.toNat_lt_size, Option.map_some, UInt64.ofNat_toNat]

/-! ## Types -/

theorem toType?_text {t : ValueType} (h : t.IsReadable) : toType? (.text t.text) = some t := by
  rw [toType?, ValueType.parse_text h]
  rfl

theorem isReadable_of_toType? {d : Datum} {t : ValueType} (h : d.toType? = some t) :
    t.IsReadable := by
  cases d with
  | text s =>
      rw [toType?] at h
      cases hparse : ValueType.parse s with
      | error fault =>
          rw [hparse] at h
          cases h
      | ok parsed =>
          rw [hparse] at h
          cases h
          exact ValueType.isReadable_of_parse hparse
  | _ => cases h

theorem toTypeOrNull?_ofTypeOrNull {t : Option ValueType} (h : ∀ type ∈ t, type.IsReadable) :
    (ofTypeOrNull t).toTypeOrNull? = some t := by
  cases t with
  | none => rfl
  | some type => exact congrArg (Option.map some) (toType?_text (h type rfl))

theorem isReadable_of_toTypeOrNull? {d : Datum} {t : Option ValueType}
    (h : d.toTypeOrNull? = some t) : ∀ type ∈ t, type.IsReadable := by
  rintro type rfl
  unfold toTypeOrNull? at h
  split at h
  · cases h
  · obtain ⟨type', hread, heq⟩ := Option.map_eq_some_iff.mp h
    cases heq
    exact isReadable_of_toType? hread

/-! ## Lists -/

section Lists

variable {α β : Type} {read : β → Option α}

/-- What is written of each item is read as the items. -/
theorem mapM_map {write : α → β} {xs : List α} (h : ∀ x ∈ xs, read (write x) = some x) :
    (xs.map write).mapM read = some xs := by
  induction xs with
  | nil => rfl
  | cons x rest ih =>
      have hfirst : read (write x) = some x := h x List.mem_cons_self
      have hrest := ih fun y hy => h y (List.mem_cons_of_mem x hy)
      simp [hfirst, hrest]

/-- Every item that is read is read from an item. -/
theorem exists_of_mem_mapM {ys : List β} {xs : List α} (h : ys.mapM read = some xs) {x : α}
    (hx : x ∈ xs) : ∃ y ∈ ys, read y = some x := by
  induction ys generalizing xs with
  | nil =>
      cases h
      cases hx
  | cons y rest ih =>
      rw [List.mapM_cons, Option.bind_eq_bind, Option.bind_eq_some_iff] at h
      obtain ⟨first, hfirst, h⟩ := h
      rw [Option.bind_eq_bind, Option.bind_eq_some_iff] at h
      obtain ⟨others, hothers, h⟩ := h
      cases h
      rcases List.mem_cons.mp hx with rfl | hx
      · exact ⟨y, List.mem_cons_self, hfirst⟩
      · obtain ⟨z, hz, hread⟩ := ih hothers hx
        exact ⟨z, List.mem_cons_of_mem y hz, hread⟩

end Lists

variable {α : Type} {read : Datum → Option α}

theorem toList?_array {write : α → Datum} {xs : List α} (h : ∀ x ∈ xs, read (write x) = some x) :
    toList? read (.array (xs.map write)) = some xs := mapM_map h

theorem exists_of_mem_toList? {d : Datum} {xs : List α} (h : toList? read d = some xs) {x : α}
    (hx : x ∈ xs) : ∃ item, read item = some x := by
  cases d with
  | list form items =>
      obtain ⟨item, -, hread⟩ := exists_of_mem_mapM h hx
      exact ⟨item, hread⟩
  | _ => cases h

/-! ## Fields -/

variable {fields : List (String × Datum)} {name : String} {x : α}

theorem exists_of_required (h : required fields name read = some x) : ∃ d, read d = some x := by
  unfold required at h
  split at h
  · next d _ => exact ⟨d, h⟩
  · cases h

/-- A field that may be left out is read, or has its default. -/
theorem exists_of_optional {default : α} (h : optional fields name default read = some x) :
    x = default ∨ ∃ d, read d = some x := by
  unfold optional at h
  split at h
  · cases h
    exact .inl rfl
  · next d _ => exact .inr ⟨d, h⟩
  · cases h

/-- Every item of a list that may be left out is read from an item. -/
theorem exists_of_mem_optional {xs : List α}
    (h : Datum.optional fields name [] (toList? read) = some xs) (hx : x ∈ xs) : ∃ item, read item = some x := by
  rcases exists_of_optional h with rfl | ⟨d, hread⟩
  · cases hx
  · exact exists_of_mem_toList? hread hx

/-! ### Fields that are left out -/

variable {d : Datum} {other : String} {form : Form}

theorem valuesOf_cons_of_ne (h : name ≠ other) :
    valuesOf other ((name, d) :: fields) = valuesOf other fields := by
  simp [valuesOf, h]

theorem required_cons_of_ne (h : name ≠ other) :
    required ((name, d) :: fields) other read = required fields other read := by
  rw [required, required, valuesOf_cons_of_ne h]

theorem optional_cons_of_ne {default : α} (h : name ≠ other) :
    Datum.optional ((name, d) :: fields) other default read =
      Datum.optional fields other default read := by
  rw [Datum.optional, Datum.optional, valuesOf_cons_of_ne h]

/-- A field that is left out is as good as one with its default. -/
theorem optional_cons_self {default : α} (h : valuesOf name fields = [])
    (hread : read d = some default) :
    Datum.optional ((name, d) :: fields) name default read =
      Datum.optional fields name default read := by
  have hvalues : valuesOf name ((name, d) :: fields) = [d] := by
    simpa [valuesOf] using h
  rw [Datum.optional, Datum.optional, hvalues, h]
  exact hread

/-- Buffering keeps the names. -/
theorem valuesOf_of_bufferFields? {buffered : List (String × Datum)}
    (h : bufferFields? fields = some buffered) (name : String) :
    bufferList? (valuesOf name fields) = some (valuesOf name buffered) := by
  induction fields generalizing buffered with
  | nil =>
      cases h
      rfl
  | cons e rest ih =>
      obtain ⟨first, d⟩ := e
      simp only [bufferFields?, Option.bind_eq_bind, Option.bind_eq_some_iff] at h
      obtain ⟨d', hbuffer, others, hothers, heq⟩ := h
      cases heq
      have hrest := ih hothers
      by_cases hname : first = name
      · simp only [valuesOf] at hrest
        simp [valuesOf, hname, bufferList?, hbuffer, hrest]
      · rw [valuesOf_cons_of_ne hname, valuesOf_cons_of_ne hname, hrest]

end Lockstep.Datum
