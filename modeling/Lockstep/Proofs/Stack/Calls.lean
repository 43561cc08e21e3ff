import Lockstep.Proofs.Stack.Accesses

/-!
# When a call is refused

The calls that a generator makes on the stack, and what each of them needs.  Whether a
call succeeds depends on the model and its arguments alone, not on the classes, the
settings or the code: `Call.refusal` says with which fault it is refused, if it is.
`Call.leaves` says what the model is afterwards if it is not, given what types stand
for and the type of the cells.

A call that is put together from several operations could fail half-way.  None does:
after its first check nothing in it can fail any more, so a refused call has emitted
nothing and has changed no entry.  The one trace that it can leave is a label, which a
conditional jump takes before it looks at the stack (`Call.lost`).
-/

namespace Lockstep

/-- A call that a generator makes on the stack. -/
inductive Call where
  | top
  | push (type : ValueType)
  | pop
  | popDownTo (mark : Nat)
  | remove (amount : Nat)
  | replace (type : ValueType)
  | replaceMany (type : ValueType) (n : Nat)
  | dup
  | swap
  | box
  | jump (cond : Cond)
  | jumpTo (cond : Cond) (label : Label)
  | pushBool (value : Bool)
  | load (type : ValueType) (index : UInt16)
  | cast (type : ValueType)
  | coerce (type : ValueType)
  | castToVariable (var : Variable)
  | castToBool (mark : Nat) (ifEmpty : Bool)
  | pushLiteral (value : Literal) (declared : ValueType)
  | loadVariable (var : Variable) (cellItself : Bool)
  | storeVariable (var : Variable)
  | accessVariable (var : Variable) (cellItself onLeft : Bool)
  | setLine (line : UInt32)
  deriving DecidableEq

namespace Call

/-- The operation that a call performs, without its result. -/
def perform : Call → Op Unit
  | .top => discard Op.top
  | .push t => Op.push t
  | .pop => Op.pop
  | .popDownTo mark => Op.popDownTo mark
  | .remove amount => Op.remove amount
  | .replace t => Op.replace t
  | .replaceMany t n => Op.replaceMany t n
  | .dup => Op.dup
  | .swap => Op.swap
  | .box => discard Op.box
  | .jump cond => discard (Op.jump cond)
  | .jumpTo cond label => Op.jumpTo cond label
  | .pushBool value => Op.pushBool value
  | .load t index => Op.load t index
  | .cast t => Op.cast t
  | .coerce t => Op.coerce t
  | .castToVariable v => Op.castToVariable v
  | .castToBool mark ifEmpty => Op.castToBool mark ifEmpty
  | .pushLiteral value declared => Op.pushLiteral value declared
  | .loadVariable v cellItself => Op.loadVariable v cellItself
  | .storeVariable v => Op.storeVariable v
  | .accessVariable v cellItself onLeft => Op.accessVariable v cellItself onLeft
  | .setLine n => Op.setLine n

end Call

/-! ## What a call needs -/

namespace Literal

/-- The kind that a literal of a primitive is of. -/
def prim? : Literal → Option Prim
  | .boolean _ => some .boolean
  | .byte _ => some .byte
  | .char _ => some .char
  | .short _ => some .short
  | .int _ => some .int
  | .long _ => some .long
  | .float _ => some .float
  | .double _ => some .double
  | _ => none

/-- Whether there is a load for a literal under a declared type.  A primitive takes
literals of its kind, its box takes these and truth values, and any other type takes
texts and big numbers. -/
def hasLoad (value : Literal) : ValueType → Bool
  | .primitive kind => value.prim? = some kind
  | .boxed kind => value.prim? = some kind || value.prim? = some .boolean
  | .named _ | .array _ =>
    match value with
    | .string _ | .bigInteger _ | .bigDecimal _ => true
    | _ => false

end Literal

/-- The fault of a call that needs more entries than there are. -/
def Need.refusal (need : Need) (required : Nat) (ts : List ValueType) : Option Fault :=
  if ts.length < required then some (.underflow need required ts.length) else none

namespace Call

/-- The fault of a conversion of nothing. -/
def conversionRefusal (target : ValueType) (explicit : Bool) (ts : List ValueType) :
    Option Fault :=
  if ts = [] then some (.castOnEmptyStack target explicit) else none

/-- The fault of a literal without a load. -/
def literalRefusal (value : Literal) (declared : ValueType) : Option Fault :=
  if value = .null ∨ value.hasLoad declared then none
  else
    match declared with
    | .primitive _ | .boxed _ => some (.constantTypeMismatch value.text declared)
    | .named _ | .array _ => some (.unsupportedConstant value.text declared)

/-- The fault with which a call is refused, given the entries, the top first. -/
def refusal (ts : List ValueType) : Call → Option Fault
  | .top | .box => Need.topOperand.refusal 1 ts
  | .pop => Need.pop.refusal 1 ts
  | .popDownTo mark => if ts.length < mark then some (.popBelowMark mark ts.length) else none
  | .remove amount => Need.remove.refusal amount ts
  | .replace _ => Need.replace.refusal 1 ts
  | .replaceMany _ n => Need.replace.refusal n ts
  | .dup => Need.dup.refusal 1 ts
  | .swap => Need.swap.refusal (if ts = [] then 1 else 2) ts
  | .jump _ | .jumpTo _ _ => Need.jump.refusal 1 ts
  | .cast t => conversionRefusal t false ts
  | .coerce t => conversionRefusal t true ts
  | .castToVariable v | .storeVariable v | .accessVariable v _ true =>
    conversionRefusal v.type false ts
  | .castToBool mark _ =>
    if mark = ts.length ∨ mark + 1 = ts.length then none
    else some (.boolMarkMismatch mark ts.length)
  | .pushLiteral value declared => literalRefusal value declared
  | .push _ | .pushBool _ | .load _ _ | .loadVariable _ _ | .accessVariable _ _ false
  | .setLine _ => none

/-- How many labels a call takes before it is refused. -/
def lost : Call → Nat
  | .jump _ => 1
  | _ => 0

/-! ## What a call leaves -/

/-- The entries that a call leaves if it is not refused, given what types stand for and
the type of the cells that variables are shared in. -/
def leaves (standsFor : ValueType → ValueType) (cell : ValueType) (ts : List ValueType) :
    Call → List ValueType
  | .top | .setLine _ => ts
  | .push t | .load t _ => t :: ts
  | .pop | .jump _ | .jumpTo _ _ | .storeVariable _ | .accessVariable _ _ true => ts.tail
  | .popDownTo mark => ts.drop (ts.length - mark)
  | .remove amount => ts.drop amount
  | .replace t => t :: ts.tail
  | .replaceMany t n => t :: ts.drop n
  | .dup => ts.head?.toList ++ ts
  | .swap =>
    match ts with
    | t :: below :: rest => below :: t :: rest
    | _ => ts
  | .box => (ts.head?.map ValueType.box).toList ++ ts.tail
  | .cast t | .coerce t => standsFor t :: ts.tail
  | .castToVariable v => standsFor v.type :: ts.tail
  | .castToBool mark _ => .boolean :: ts.drop (ts.length - mark)
  | .pushBool _ => .boolean :: ts
  | .pushLiteral value declared => (if value = .null then .object else declared) :: ts
  | .loadVariable v cellItself | .accessVariable v cellItself false =>
    (if v.holder ∧ cellItself then cell else v.type) :: ts

end Call

/-! ## What becomes of a call -/

/-- What becomes of an operation: it is refused, and nothing is left of it but some
labels that it took, or it leaves certain entries. -/
inductive Op.Outcome (op : Op Unit) (c : Context) (s : State) (lost : Nat)
    (left : List ValueType) : Option Fault → Prop
  | refused {fault : Fault} : op.run c s = .error (s.failure c fault) (s.allotting lost) →
      Outcome op c s lost left (some fault)
  | done {after : State} : op.run c s = .ok () after → after.entries = left →
      Outcome op c s lost left none

namespace Op

variable (c : Context) (s : State) {left : List ValueType}

theorem run_jumpTo (cond : Cond) (label : Label) :
    (jumpTo cond label).run c s =
      match s.entries with
      | [] => .error (s.failure c (.underflow .jump 1 0)) s
      | _ :: rest =>
        .ok () (((s.appending c [.jump cond label]).noting [.removed 1 rest.length]).withEntries
          rest) := by
  cases hentries : s.entries <;> simp [jumpTo, run_remove, State.size, hentries]

/-- The label is taken first. -/
theorem run_jump (cond : Cond) :
    (jump cond).run c s =
      match s.entries with
      | [] => .error (s.failure c (.underflow .jump 1 0)) (s.allotting 1)
      | _ :: rest =>
        .ok ⟨s.labels⟩ ((((s.allotting 1).appending c [.jump cond ⟨s.labels⟩]).noting
          [.removed 1 rest.length]).withEntries rest) := by
  cases hentries : s.entries <;> simp [jump, freshLabel, run_jumpTo, hentries]
  rfl

namespace Outcome

/-- A check of a condition comes before anything else. -/
theorem of_ite {op : Op Unit} {p : Prop} [Decidable p] {fault : Fault} {after : State}
    (hrun : op.run c s = if p then .error (s.failure c fault) s else .ok () after)
    (hleft : after.entries = left) : Outcome op c s 0 left (if p then some fault else none) := by
  by_cases hp : p
  · rw [if_pos hp] at hrun ⊢
    exact .refused hrun
  · rw [if_neg hp] at hrun ⊢
    exact .done hrun hleft

/-- One entry is needed, and is enough. -/
theorem of_entries {op : Op Unit} {need : Need} {lost : Nat}
    (after : ValueType → List ValueType → State)
    (hrun : op.run c s =
      match s.entries with
      | [] => .error (s.failure c (.underflow need 1 0)) (s.allotting lost)
      | t :: rest => .ok () (after t rest))
    (hleft : ∀ t rest, s.entries = t :: rest → (after t rest).entries = left) :
    Outcome op c s lost left (need.refusal 1 s.entries) := by
  cases hentries : s.entries with
  | nil =>
      rw [hentries] at hrun
      exact .refused hrun
  | cons t rest =>
      rw [hentries] at hrun
      exact .done hrun (hleft t rest hentries)

/-- A conversion needs an entry, and nothing else. -/
theorem convert (target : ValueType) (explicit : Bool) :
    Outcome (Op.convert target explicit) c s 0 (c.registry.canonical target :: s.entries.tail)
      (Call.conversionRefusal target explicit s.entries) := by
  cases hentries : s.entries with
  | nil => exact .refused (by simp [Op.convert, hentries])
  | cons t rest => exact .done (Op.run_convert c s hentries target explicit) rfl

/-- The conversion before a store is the only part of it that can be refused. -/
theorem storeVariable (v : Variable) :
    Outcome (Op.storeVariable v) c s 0 s.entries.tail
      (Call.conversionRefusal v.type false s.entries) := by
  cases hentries : s.entries with
  | nil => exact .refused (by simp [Op.storeVariable, Op.cast, Op.convert, hentries])
  | cons t rest => exact .done (Op.run_storeVariable c s hentries v) rfl

theorem loadVariable (v : Variable) (cellItself : Bool) :
    Outcome (Op.loadVariable v cellItself) c s 0
      ((if v.holder ∧ cellItself then c.settings.support.cellType else v.type) :: s.entries)
      none := by
  refine .done (Op.run_loadVariable c s v cellItself) ?_
  cases hholder : v.holder <;> cases cellItself <;> simp [Variable.loading, hholder]

/-- A condition is nothing above the mark, or one entry. -/
theorem castToBool (mark : Nat) (ifEmpty : Bool) :
    Outcome (Op.castToBool mark ifEmpty) c s 0
      (.boolean :: s.entries.drop (s.entries.length - mark))
      ((Call.castToBool mark ifEmpty).refusal s.entries) := by
  by_cases hempty : s.entries.length = mark
  · have hrefusal : (Call.castToBool mark ifEmpty).refusal s.entries = none :=
      if_pos (.inl hempty.symm)
    have hrun := Op.run_castToBool c s mark ifEmpty
    rw [State.size, if_pos hempty] at hrun
    rw [hrefusal, hempty, Nat.sub_self]
    exact .done hrun rfl
  · by_cases hone : s.entries.length = mark + 1
    · have hrefusal : (Call.castToBool mark ifEmpty).refusal s.entries = none :=
        if_pos (.inr hone.symm)
      obtain ⟨t, rest, hentries⟩ := List.exists_cons_of_length_eq_add_one hone
      have hmark : rest.length = mark := by
        rw [hentries, List.length_cons] at hone
        omega
      have hdrop : s.entries.drop (s.entries.length - mark) = rest := by
        rw [hone, Nat.add_sub_cancel_left, hentries]
        rfl
      rw [hrefusal, hdrop, ← hmark]
      exact .done (Op.run_castToBool_cons c s hentries ifEmpty) rfl
    · have hneither : ¬ (mark = s.entries.length ∨ mark + 1 = s.entries.length) := by
        omega
      have hrefusal : (Call.castToBool mark ifEmpty).refusal s.entries =
          some (.boolMarkMismatch mark s.entries.length) := if_neg hneither
      rw [hrefusal]
      exact .refused (by simp [Op.castToBool, hempty, hone])

end Outcome

end Op

namespace Literal

theorem prim?_eq_some_iff {value : Literal} {kind : Prim} :
    value.prim? = some kind ↔ (primLoad? kind value).isSome := by
  cases value <;> cases kind <;> simp [prim?, primLoad?]

/-- What `load` and `Call.literalRefusal` have to do with each other: the literal is
loaded, or it is refused. -/
def LoadsOrRefused (value : Literal) (declared : ValueType) : Prop :=
  (∃ code, value.load declared = .ok (code, if value = .null then .object else declared) ∧
    Call.literalRefusal value declared = none) ∨
  ∃ fault, value.load declared = .error fault ∧ Call.literalRefusal value declared = some fault

/-- Where a load of the primitive kind decides, it is there for the literals of that
kind. -/
theorem loadsOrRefused_of_prim {value : Literal} {declared : ValueType} {kind : Prim}
    (code : Instr → List Instr) (hnull : value ≠ .null)
    (hdeclared : declared = .primitive kind ∨ declared = .boxed kind)
    (hhas : value.hasLoad declared = true ↔ value.prim? = some kind)
    (hload : value.load declared =
      match primLoad? kind value with
      | some i => .ok (code i, declared)
      | none => .error (.constantTypeMismatch value.text declared)) :
    value.LoadsOrRefused declared := by
  rw [prim?_eq_some_iff] at hhas
  cases hprim : primLoad? kind value with
  | some i =>
      rw [hprim] at hload hhas
      refine .inl ⟨code i, by rw [hload, if_neg hnull], if_pos (.inr (hhas.mpr rfl))⟩
  | none =>
      rw [hprim] at hload hhas
      have hrefused : ¬ (value = .null ∨ value.hasLoad declared = true) := by
        rw [hhas]
        simp [hnull]
      refine .inr ⟨_, hload, ?_⟩
      rcases hdeclared with rfl | rfl <;> exact if_neg hrefused

/-- A literal is loaded unless it has no load. -/
theorem loadsOrRefused (value : Literal) (declared : ValueType) :
    value.LoadsOrRefused declared := by
  by_cases hnull : value = .null
  · subst hnull
    exact .inl ⟨_, rfl, rfl⟩
  · cases declared with
    | primitive kind =>
        refine loadsOrRefused_of_prim (fun i => [i]) hnull (.inl rfl) (by simp [hasLoad]) ?_
        cases value with
        | null => exact absurd rfl hnull
        | _ => rfl
    | boxed kind =>
        by_cases hboolean : value.prim? = some .boolean
        · -- the shared boxes of truth values are loaded under every box
          obtain ⟨v, rfl⟩ : ∃ v, value = .boolean v := by
            cases value <;> simp_all [prim?]
          refine .inl ⟨_, rfl, if_pos (.inr ?_)⟩
          simp [hasLoad, prim?]
        · refine loadsOrRefused_of_prim (fun i => [i, .box kind]) hnull (.inr rfl)
            (by simp [hasLoad, hboolean]) ?_
          cases value with
          | null => exact absurd rfl hnull
          | boolean v => exact absurd rfl hboolean
          | _ => rfl
    | named name =>
        cases value <;> simp_all [LoadsOrRefused, load, referenceLoad?, Call.literalRefusal, hasLoad]
    | array t =>
        cases value <;> simp_all [LoadsOrRefused, load, referenceLoad?, Call.literalRefusal, hasLoad]

end Literal

namespace Call

/-- Every call is refused with the fault of `refusal`, or leaves the entries of
`leaves`. -/
theorem outcome (call : Call) (c : Context) (s : State) :
    call.perform.Outcome c s call.lost
      (call.leaves c.registry.canonical c.settings.support.cellType s.entries)
      (call.refusal s.entries) := by
  cases call with
  | push t => exact .done rfl rfl
  | pushBool value => exact .done (by simp [perform, Op.pushBool]; rfl) rfl
  | load t index => exact .done (by simp [perform, Op.load]; rfl) rfl
  | setLine n => exact .done rfl rfl
  | cast t => exact .convert c s t false
  | coerce t => exact .convert c s t true
  | castToVariable v => exact .convert c s v.type false
  | castToBool mark ifEmpty => exact .castToBool c s mark ifEmpty
  | loadVariable v cellItself => exact .loadVariable c s v cellItself
  | storeVariable v => exact .storeVariable c s v
  | accessVariable v cellItself onLeft =>
      cases onLeft with
      | true => exact .storeVariable c s v
      | false => exact .loadVariable c s v cellItself
  | pushLiteral value declared =>
      have hrun := Op.run_pushLiteral c s value declared
      rcases value.loadsOrRefused declared with ⟨code, hload, hrefusal⟩ | ⟨fault, hload, hrefusal⟩
      · rw [hload] at hrun
        rw [refusal, hrefusal]
        exact .done hrun rfl
      · rw [hload] at hrun
        rw [refusal, hrefusal]
        exact .refused hrun
  | popDownTo mark => exact .of_ite c s (Op.run_popDownTo c s mark) rfl
  | remove amount => exact .of_ite c s (Op.run_remove c s amount) rfl
  | replaceMany t n => exact .of_ite c s (Op.run_replaceMany c s t n) rfl
  | replace t =>
      have hleft : (replace t).leaves c.registry.canonical c.settings.support.cellType s.entries =
          t :: s.entries.drop 1 := by rw [List.drop_one]; rfl
      rw [hleft]
      exact .of_ite c s (Op.run_replaceMany c s t 1) rfl
  | top =>
      refine .of_entries c s (fun _ _ => s) ?_ fun t rest _ => rfl
      cases hentries : s.entries <;> simp [perform, Op.run_top, hentries, lost]
  | box =>
      refine .of_entries c s (fun t rest => (s.appending c t.boxing).withEntries
        (t.box :: rest)) ?_ fun t rest hentries => by rw [hentries]; rfl
      cases hentries : s.entries with
      | nil => simp [perform, Op.run_box, hentries, lost]
      | cons t rest => rw [perform, Op.run_discard, Op.run_box_cons c s hentries]
  | pop => exact .of_entries c s _ (Op.run_pop c s) fun t rest hentries => by rw [hentries]; rfl
  | dup => exact .of_entries c s _ (Op.run_dup c s) fun t rest hentries => by rw [hentries]; rfl
  | jumpTo cond label =>
      exact .of_entries c s _ (Op.run_jumpTo c s cond label) fun t rest hentries => by
        rw [hentries]
        rfl
  | jump cond =>
      refine .of_entries c s (fun _ rest => (((s.allotting 1).appending c
        [.jump cond ⟨s.labels⟩]).noting [.removed 1 rest.length]).withEntries rest) ?_
        fun t rest hentries => by rw [hentries]; rfl
      rw [perform, Op.run_discard, Op.run_jump]
      cases s.entries <;> rfl
  | swap =>
      have hrun := Op.run_swap c s
      rcases hentries : s.entries with _ | ⟨t, _ | ⟨below, rest⟩⟩
      · rw [hentries] at hrun
        exact .refused hrun
      · rw [hentries] at hrun
        exact .refused hrun
      · rw [hentries] at hrun
        exact .done hrun rfl

theorem run_of_refusal {call : Call} {fault : Fault} (c : Context) (s : State)
    (h : call.refusal s.entries = some fault) :
    call.perform.run c s = .error (s.failure c fault) (s.allotting call.lost) := by
  have houtcome := call.outcome c s
  rw [h] at houtcome
  cases houtcome with
  | refused hrun => exact hrun

theorem exists_run_of_refusal {call : Call} (c : Context) (s : State)
    (h : call.refusal s.entries = none) :
    ∃ after, call.perform.run c s = .ok () after ∧
      after.entries = call.leaves c.registry.canonical c.settings.support.cellType s.entries := by
  have houtcome := call.outcome c s
  rw [h] at houtcome
  cases houtcome with
  | done hrun hleft => exact ⟨_, hrun, hleft⟩

/-- A call fails exactly if it is refused, with that fault at the current site; and then
entries, code, line and log are as they were, and the labels too but for the one that a
conditional jump takes first. -/
theorem run_eq_error_iff (call : Call) (c : Context) (s after : State) (failure : Failure) :
    call.perform.run c s = .error failure after ↔
      ∃ fault, call.refusal s.entries = some fault ∧ failure = s.failure c fault ∧
        after = { s with labels := s.labels + call.lost } := by
  constructor
  · intro hrun
    cases hrefusal : call.refusal s.entries with
    | none =>
        obtain ⟨_, hdone, -⟩ := exists_run_of_refusal c s hrefusal
        rw [hdone] at hrun
        cases hrun
    | some fault =>
        rw [run_of_refusal c s hrefusal] at hrun
        cases hrun
        exact ⟨fault, rfl, rfl, rfl⟩
  · rintro ⟨fault, hrefusal, rfl, rfl⟩
    exact run_of_refusal c s hrefusal

end Call

end Lockstep
