import Lockstep.Value.ValueType

/-!
# Alias tables

The aliases of a trace: a type for each of some names.  A table holds them in
the order of the names, each name once, so that equal tables are the same term.
Putting a name in again replaces its type.
-/

namespace Lockstep

/-- Names and the types that they stand for, in the order of the names. -/
structure Aliases where
  entries : List (String × ValueType)
  sorted : entries.Pairwise fun a b => a.1 < b.1
  deriving DecidableEq

namespace Aliases

def empty : Aliases := ⟨[], .nil⟩

/-- Puts an entry in its place among entries in order, instead of one with the
same name. -/
def insertEntry (name : String) (target : ValueType) :
    List (String × ValueType) → List (String × ValueType)
  | [] => [(name, target)]
  | (other, old) :: rest =>
    if name < other then (name, target) :: (other, old) :: rest
    else if name = other then (name, target) :: rest
    else (other, old) :: insertEntry name target rest

theorem mem_insertEntry {name : String} {target : ValueType}
    {entries : List (String × ValueType)} {e : String × ValueType}
    (h : e ∈ insertEntry name target entries) : e = (name, target) ∨ e ∈ entries := by
  induction entries with
  | nil => simpa [insertEntry] using h
  | cons head rest ih =>
    unfold insertEntry at h
    split at h
    · simpa using h
    · split at h
      · rcases List.mem_cons.mp h with eq | mem
        · exact .inl eq
        · exact .inr (List.mem_cons_of_mem _ mem)
      · rcases List.mem_cons.mp h with eq | mem
        · exact .inr (eq ▸ List.mem_cons_self)
        · exact (ih mem).imp_right (List.mem_cons_of_mem _)

theorem sorted_insertEntry (name : String) (target : ValueType)
    {entries : List (String × ValueType)} (h : entries.Pairwise fun a b => a.1 < b.1) :
    (insertEntry name target entries).Pairwise fun a b => a.1 < b.1 := by
  induction entries with
  | nil => simp [insertEntry]
  | cons head rest ih =>
    obtain ⟨above, sorted⟩ := List.pairwise_cons.mp h
    unfold insertEntry
    split
    · next lt =>
      refine List.pairwise_cons.mpr ⟨fun e mem => ?_, h⟩
      rcases List.mem_cons.mp mem with eq | mem
      · exact eq ▸ lt
      · exact String.lt_trans lt (above e mem)
    · next notLt =>
      split
      · next eq => exact List.pairwise_cons.mpr ⟨fun e mem => eq ▸ above e mem, sorted⟩
      · next ne =>
        refine List.pairwise_cons.mpr ⟨fun e mem => ?_, ih sorted⟩
        rcases mem_insertEntry mem with eq | mem
        · exact eq ▸ Std.lt_of_le_of_ne (String.not_lt.mp notLt) (Ne.symm ne)
        · exact above e mem

def insert (a : Aliases) (name : String) (target : ValueType) : Aliases :=
  ⟨insertEntry name target a.entries, sorted_insertEntry name target a.sorted⟩

/-- The table of some entries in any order; of several with one name the last
counts. -/
def ofList (entries : List (String × ValueType)) : Aliases :=
  entries.foldl (fun a (name, target) => a.insert name target) empty

end Aliases

end Lockstep
