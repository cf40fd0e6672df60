import YellowTree.Lib.FuelLoop
import YellowTree.Lua.Value

/-!
# YellowTree.Debugger.Dump — printing nested tables

`dump_internal` keeps the depth and the tables it has been in as globals.  Tables are abbreviated from depth 2 on, and
a table met again is not printed again.  The exits for bridge objects leave the depth as it is.

* `dumpInternal_le`: more fuel gives the same answer, and `dump_ne_outOfFuel`: fuel 3 is enough for every value.
* `ends_plain_iff`: one table, in terms of the calls for its entries.
* `dumpsBalanced_iff`: `dump` gives a string with every call balanced exactly under `DumpsWhen`.
-/

namespace YellowTree

open FuelLoop (Result Ends loop)

/-! ## Values -/

section Values

/-- A Lua value made of strings, numbers, booleans and tables; a table is known by its identity. -/
inductive DumpValue where
  | string (s : LuaString)
  | number (n : LuaNumber)
  | boolean (b : Bool)
  | table (id : ℕ)
  deriving DecidableEq

def DumpValue.isTable : DumpValue → Bool
  | .table _ => true
  | _ => false

def DumpValue.typeName : DumpValue → String
  | .string _ => "string"
  | .number _ => "number"
  | .boolean _ => "boolean"
  | .table _ => "table"

/-- The entries of a table in the order of `pairs`: no key occurs twice, and none is NaN. -/
structure DumpTable where
  entries : List (DumpValue × DumpValue)
  nodup : (entries.map Prod.fst).Nodup
  noNaN : ∀ e ∈ entries, e.1 ≠ .number .nan

/-- What `jclass:dump` reads of a class: its name, and the texts of its fields and methods. -/
structure ClassObject where
  name : LuaString
  fieldsArray : List LuaString
  methodsArray : List LuaString

/-- A table: a plain one, or a bridge object with the text its `__tostring` gives. -/
inductive DumpObject where
  | plain (t : DumpTable)
  | jclass (c : ClassObject)
  | jfieldId (text : LuaString)
  | jmethodId (text : LuaString)

/-- The tables, and how `tostring` prints numbers and the addresses of tables. -/
structure DumpHeap where
  object : ℕ → DumpObject
  numberText : LuaNumber → LuaString
  address : ℕ → LuaString

def DumpTable.field (t : DumpTable) (name : LuaString) : Option DumpValue :=
  (t.entries.find? fun e => e.1 = .string name).map Prod.snd

/-- The field `classname`.  What is no string is none of the names that it is compared with. -/
def DumpTable.classname (t : DumpTable) : LuaString :=
  match t.field "classname".toList with
  | some (.string s) => s
  | _ => []

namespace DumpHeap

variable (heap : DumpHeap)

/-- `o.classname`, or the empty string. -/
def classname : DumpValue → LuaString
  | .table id =>
    match heap.object id with
    | .plain t => t.classname
    | .jclass _ => "jclass".toList
    | .jfieldId _ => "jfield_id".toList
    | .jmethodId _ => "jmethod_id".toList
  | _ => []

/-- The entries of a plain table. -/
def entries (id : ℕ) : List (DumpValue × DumpValue) :=
  match heap.object id with
  | .plain t => t.entries
  | _ => []

/-- `tostring`. -/
def tostring : DumpValue → LuaString
  | .string s => s
  | .number n => heap.numberText n
  | .boolean true => "true".toList
  | .boolean false => "false".toList
  | .table id =>
    match heap.object id with
    | .jfieldId text => text
    | .jmethodId text => text
    | _ => "table: ".toList ++ heap.address id

end DumpHeap

end Values

/-! ## The embedding -/

section Embedding

/-- The lines for one of the arrays of a class. -/
def listing (indent title : LuaString) (items : List LuaString) : LuaString :=
  if items = [] then []
  else indent ++ title ++ ":\n".toList ++ items.flatMap fun f => indent ++ "    ".toList ++ f ++ ['\n']

/-- `jclass.dump`, a function of `self` and `prefix`.  A string has no `fields_array`. -/
def jclassDump (self : LuaString ⊕ ClassObject) (indent : Option LuaString) : Except LuaError LuaString :=
  match self with
  | .inl _ => .error (.message "bad argument #1 to 'ipairs' (table expected, got nil)")
  | .inr c => .ok (indent.getD [] ++ "jclass: ".toList ++ c.name ++ ['\n'] ++
      listing (indent.getD []) "fields".toList c.fieldsArray ++
      listing (indent.getD []) "methods".toList c.methodsArray)

/-- The globals `dump_depth` and `dump_params`; and of each call that has returned, the depth it was called at and the
depth it left. -/
structure DumpState where
  depth : ℕ
  params : List DumpValue
  calls : List (ℕ × ℕ)

/-- A call that was made at a depth returns. -/
def DumpState.returns (s : DumpState) (entry : ℕ) : DumpState := { s with calls := (entry, s.depth) :: s.calls }

def DumpState.ascend (s : DumpState) : DumpState := { s with depth := s.depth + 1 }

def DumpState.descend (s : DumpState) : DumpState := { s with depth := s.depth - 1 }

def DumpState.mark (s : DumpState) (o : DumpValue) : DumpState := { s with params := o :: s.params }

abbrev DumpResult := Result LuaError DumpState LuaString

variable (heap : DumpHeap)

/-- `f(prefix)` for the field `dump` of a plain table.  Only a `jmethod_id` can be called, and it wants an object. -/
def callField (f : Option DumpValue) : Except LuaError LuaString :=
  match f with
  | none => .error (.message "attempt to call field 'dump' (a nil value)")
  | some (.table id) =>
    match heap.object id with
    | .jmethodId _ => .error (.message "bad argument #1 to 'lj_call_method' (jobject expected, got string)")
    | _ => .error (.message "attempt to call field 'dump' (a table value)")
  | some v => .error (.message ("attempt to call field 'dump' (a " ++ v.typeName ++ " value)"))

/-- `o.dump(prefix)`: the function of `jclass` gets the prefix as `self`. -/
def callDump (o : DumpValue) (indent : LuaString) : Except LuaError LuaString :=
  match o with
  | .table id =>
    match heap.object id with
    | .jclass _ => jclassDump (.inl indent) none
    | .plain t => callField heap (t.field "dump".toList)
    | _ => callField heap none
  | o => .error (.message ("attempt to index local 'o' (a " ++ o.typeName ++ " value)"))

/-- A key as it is printed. -/
def dumpKey (rec : DumpValue → DumpState → DumpResult) (k : DumpValue) (s : DumpState) : DumpResult :=
  match k with
  | .table id => rec (.table id) s
  | .number n => .ok (heap.numberText n) s
  | .string t => .ok ('"' :: (t ++ ['"'])) s
  | .boolean _ => .error (.message "attempt to concatenate local 'k' (a boolean value)")

/-- One round of the loop over `pairs(o)`. -/
def dumpEntry (rec : DumpValue → DumpState → DumpResult) (indent : LuaString) (e : DumpValue × DumpValue)
    (text : LuaString) (s : DumpState) : DumpResult :=
  (dumpKey heap rec e.1 s).bind fun key s =>
    (rec e.2 s).bind fun value s =>
      .ok (text ++ indent ++ ['['] ++ key ++ "] = ".toList ++ value ++ [','] ++ ['\n']) s

/-- The body of `dump_internal`, where `rec` is its call of itself. -/
def dumpBody (rec : DumpValue → DumpState → DumpResult) (o : DumpValue) (s : DumpState) : DumpResult :=
  if o.isTable = true ∧ 1 < s.depth then .ok "<table>".toList (s.returns s.depth)
  else if o.isTable = true ∧ o ∈ s.params then .ok "<recursion>".toList (s.ascend.descend.returns s.depth)
  else if o = .number .nan then .error (.message "table index is NaN")
  else
    let t := s.ascend.mark o
    let indent := (List.replicate t.depth "  ".toList).flatten
    if heap.classname o = "jclass".toList then
      match callDump heap o indent with
      | .error e => .error e
      | .ok text => .ok text (t.returns s.depth)
    else if heap.classname o = "jfield_id".toList ∨ heap.classname o = "jmethod_id".toList then
      .ok (indent ++ heap.tostring o) (t.returns s.depth)
    else
      match o with
      | .table id =>
        (loop (dumpEntry heap rec indent) (heap.entries id) "\x7b \n".toList t).bind fun text u =>
          .ok (text ++ "\x7d ".toList) (u.descend.returns s.depth)
      | o => .ok (heap.tostring o) (t.descend.returns s.depth)

/-- `dump_internal`, with fuel for the calls inside one another. -/
def dumpInternal : ℕ → DumpValue → DumpState → DumpResult
  | 0, _, _ => .outOfFuel
  | n + 1, o, s => dumpBody heap (dumpInternal n) o s

/-- `dump`. -/
def dump (fuel : ℕ) (o : DumpValue) : DumpResult := dumpInternal heap fuel o ⟨0, [], []⟩

end Embedding

/-! ## Total and balanced -/

section Spec

/-- Every call has returned at the depth it was made at. -/
def DumpState.Balanced (s : DumpState) : Prop := ∀ c ∈ s.calls, c.1 = c.2

variable (heap : DumpHeap)

/-- `dump` ends with a string, and all calls are balanced. -/
def DumpsBalanced (o : DumpValue) : Prop := ∃ fuel, Ends DumpState.Balanced (dump heap fuel o)

/-- A bridge object, or a plain table with the class name of one. -/
def BridgeLike (id : ℕ) : Prop :=
  heap.classname (.table id) = "jclass".toList ∨ heap.classname (.table id) = "jfield_id".toList ∨
    heap.classname (.table id) = "jmethod_id".toList

/-- A table that is no bridge object, without booleans as keys and NaN as values. -/
structure Plain (id : ℕ) : Prop where
  notBridge : ¬ BridgeLike heap id
  keys : ∀ e ∈ heap.entries id, ∀ b, e.1 ≠ .boolean b
  values : ∀ e ∈ heap.entries id, e.2 ≠ .number .nan

/-- The value is not NaN; a table is plain, and so are the tables among its keys and values. -/
def DumpsWhen (o : DumpValue) : Prop :=
  o ≠ .number .nan ∧ ∀ id, o = .table id →
    Plain heap id ∧ ∀ e ∈ heap.entries id, ∀ t, e.1 = .table t ∨ e.2 = .table t → Plain heap t

end Spec

/-! ## The exits -/

section Exits

variable {heap : DumpHeap} {rec rec' : DumpValue → DumpState → DumpResult} {o : DumpValue} {s : DumpState} {id : ℕ}

@[simp] theorem balanced_returns {entry : ℕ} : (s.returns entry).Balanced ↔ entry = s.depth ∧ s.Balanced := by
  unfold DumpState.Balanced DumpState.returns
  rw [List.forall_mem_cons]

theorem dumpBody_deep (ho : o.isTable = true) (hs : 1 < s.depth) :
    dumpBody heap rec o s = .ok "<table>".toList (s.returns s.depth) :=
  if_pos ⟨ho, hs⟩

theorem dumpBody_visited (ho : o.isTable = true) (hs : s.depth ≤ 1) (hmem : o ∈ s.params) :
    dumpBody heap rec o s = .ok "<recursion>".toList (s.returns s.depth) := by
  unfold dumpBody
  rw [if_neg (by omega), if_pos ⟨ho, hmem⟩]
  rfl

theorem dumpBody_scalar (ho : o.isTable = false) :
    dumpBody heap rec o s = if o = .number .nan then .error (.message "table index is NaN")
      else .ok (heap.tostring o) ((s.mark o).returns s.depth) := by
  unfold dumpBody
  rw [if_neg (by simp [ho]), if_neg (by simp [ho])]
  refine if_congr Iff.rfl rfl ?_
  cases o with
  | table id => cases ho
  | _ => rfl

theorem callField_eq_error (f : Option DumpValue) : ∃ e, callField heap f = .error e := by
  unfold callField
  cases f with
  | none => exact ⟨_, rfl⟩
  | some v =>
    cases v with
    | table id =>
      dsimp only
      cases heap.object id <;> exact ⟨_, rfl⟩
    | _ => exact ⟨_, rfl⟩

/-- No call of `o.dump` returns. -/
theorem callDump_eq_error (o : DumpValue) (indent : LuaString) : ∃ e, callDump heap o indent = .error e := by
  unfold callDump
  cases o with
  | table id =>
    dsimp only
    cases heap.object id with
    | plain t => exact callField_eq_error _
    | jclass c => exact ⟨_, rfl⟩
    | _ => exact callField_eq_error none
  | _ => exact ⟨_, rfl⟩

/-- A bridge object, or what looks like one, raises an error or leaves the depth one too large. -/
theorem dumpBody_bridgeLike (hb : BridgeLike heap id) (hs : s.depth ≤ 1) (hnew : .table id ∉ s.params) :
    (∃ e, ∀ rec, dumpBody heap rec (.table id) s = .error e) ∨
      ∃ text, ∀ rec, dumpBody heap rec (.table id) s = .ok text ((s.ascend.mark (.table id)).returns s.depth) := by
  have hstart : ∀ rec, dumpBody heap rec (.table id) s = _ := fun rec =>
    (if_neg (by omega)).trans ((if_neg (by simp [hnew])).trans (if_neg (by simp)))
  by_cases hclass : heap.classname (.table id) = "jclass".toList
  · obtain ⟨e, he⟩ := callDump_eq_error (.table id)
      (List.replicate (s.ascend.mark (.table id)).depth "  ".toList).flatten
    refine Or.inl ⟨e, fun rec => ?_⟩
    rw [hstart, if_pos hclass, he]
  · refine Or.inr ⟨(List.replicate (s.depth + 1) "  ".toList).flatten ++ heap.tostring (.table id), fun rec => ?_⟩
    rw [hstart, if_neg hclass, if_pos (hb.resolve_left hclass)]
    rfl

theorem not_ends_bridgeLike (hb : BridgeLike heap id) (hs : s.depth ≤ 1) (hnew : .table id ∉ s.params) :
    ¬ Ends DumpState.Balanced (dumpBody heap rec (.table id) s) := by
  rcases dumpBody_bridgeLike hb hs hnew with ⟨e, he⟩ | ⟨text, htext⟩
  · rw [he]
    exact FuelLoop.not_ends_error
  · rw [htext, FuelLoop.ends_ok, balanced_returns]
    rintro ⟨hdepth, -⟩
    have : s.depth = s.depth + 1 := hdepth
    omega

/-- A plain table is a loop over its entries, one level deeper. -/
theorem dumpBody_plain (hb : ¬ BridgeLike heap id) (hs : s.depth ≤ 1) (hnew : .table id ∉ s.params) :
    dumpBody heap rec (.table id) s =
      (loop (dumpEntry heap rec (List.replicate (s.depth + 1) "  ".toList).flatten) (heap.entries id) "\x7b \n".toList
        (s.ascend.mark (.table id))).bind fun text u => .ok (text ++ "\x7d ".toList) (u.descend.returns s.depth) := by
  obtain ⟨hclass, hmember⟩ := not_or.mp hb
  unfold dumpBody
  rw [if_neg (by omega), if_neg (by simp [hnew]), if_neg (by simp)]
  dsimp only
  rw [if_neg hclass, if_neg hmember]
  rfl

/-- What a call that returns can do to the state. -/
theorem dumpBody_eq_ok {text : LuaString} {s' : DumpState} (h : dumpBody heap rec o s = .ok text s') :
    s' = s.returns s.depth ∨
    (o.isTable = false ∧ s' = (s.mark o).returns s.depth) ∨
    s' = (s.ascend.mark o).returns s.depth ∨
    ∃ id indent text u, o = .table id ∧
      loop (dumpEntry heap rec indent) (heap.entries id) "\x7b \n".toList (s.ascend.mark o) = .ok text u ∧
      s' = u.descend.returns s.depth := by
  cases ho : o.isTable with
  | false =>
    rw [dumpBody_scalar ho] at h
    split_ifs at h
    exact Or.inr (Or.inl ⟨rfl, (Result.ok.inj h).2.symm⟩)
  | true =>
    obtain ⟨id, rfl⟩ : ∃ id, o = .table id := by
      cases o with
      | table id => exact ⟨id, rfl⟩
      | _ => cases ho
    rcases Nat.lt_or_ge 1 s.depth with hs | hs
    · rw [dumpBody_deep ho hs] at h
      exact Or.inl (Result.ok.inj h).2.symm
    by_cases hmem : .table id ∈ s.params
    · rw [dumpBody_visited ho hs hmem] at h
      exact Or.inl (Result.ok.inj h).2.symm
    by_cases hb : BridgeLike heap id
    · rcases dumpBody_bridgeLike hb hs hmem with ⟨e, he⟩ | ⟨text', htext⟩
      · cases (he rec).symm.trans h
      · rw [htext] at h
        exact Or.inr (Or.inr (Or.inl (Result.ok.inj h).2.symm))
    · rw [dumpBody_plain hb hs hmem] at h
      obtain ⟨text', u, hloop, hend⟩ := FuelLoop.bind_eq_ok_iff.mp h
      exact Or.inr (Or.inr (Or.inr ⟨id, _, text', u, rfl, hloop, (Result.ok.inj hend).2.symm⟩))

end Exits

/-! ## Rounds -/

section Rounds

variable {heap : DumpHeap} {rec rec' : DumpValue → DumpState → DumpResult} {indent : LuaString}
  {P Q : DumpState → Prop} {Good : DumpValue → Prop}

/-- A key leaves the state as it is, or is a call. -/
theorem dumpKey_eq_ok {k : DumpValue} {s s' : DumpState} {text : LuaString} (h : dumpKey heap rec k s = .ok text s') :
    s' = s ∨ ∃ v, rec v s = .ok text s' := by
  unfold dumpKey at h
  cases k with
  | table id => exact Or.inr ⟨_, h⟩
  | boolean b => cases h
  | _ => exact Or.inl (Result.ok.inj h).2.symm

/-- A round is its key and then its value. -/
theorem dumpEntry_eq_ok {e : DumpValue × DumpValue} {a a' : LuaString} {s s' : DumpState}
    (h : dumpEntry heap rec indent e a s = .ok a' s') :
    ∃ key s₁ value, dumpKey heap rec e.1 s = .ok key s₁ ∧ rec e.2 s₁ = .ok value s' := by
  obtain ⟨key, s₁, hkey, h⟩ := FuelLoop.bind_eq_ok_iff.mp h
  obtain ⟨value, s₂, hvalue, h⟩ := FuelLoop.bind_eq_ok_iff.mp h
  obtain ⟨-, rfl⟩ := Result.ok.inj h
  exact ⟨key, s₁, value, hkey, hvalue⟩

/-- What the calls cannot bring back a round cannot. -/
theorem dumpEntry_back (hrec : ∀ v s text s', rec v s = .ok text s' → Q s' → Q s) (e : DumpValue × DumpValue)
    (a : LuaString) (s : DumpState) (a' : LuaString) (s' : DumpState)
    (h : dumpEntry heap rec indent e a s = .ok a' s') (hQ : Q s') : Q s := by
  obtain ⟨key, s₁, value, hkey, hvalue⟩ := dumpEntry_eq_ok h
  have hQ₁ := hrec e.2 s₁ value s' hvalue hQ
  rcases dumpKey_eq_ok hkey with rfl | ⟨v, hv⟩
  · exact hQ₁
  · exact hrec v s key s₁ hv hQ₁

/-- What the calls keep a round keeps. -/
theorem dumpEntry_keep (hrec : ∀ v s text s', rec v s = .ok text s' → Q s' → Q s)
    (hkeep : ∀ v s text s', P s → rec v s = .ok text s' → Q s' → P s') (e : DumpValue × DumpValue)
    (a : LuaString) (s : DumpState) (a' : LuaString) (s' : DumpState) (hP : P s)
    (h : dumpEntry heap rec indent e a s = .ok a' s') (hQ : Q s') : P s' := by
  obtain ⟨key, s₁, value, hkey, hvalue⟩ := dumpEntry_eq_ok h
  have hQ₁ := hrec e.2 s₁ value s' hvalue hQ
  rcases dumpKey_eq_ok hkey with rfl | ⟨v, hv⟩
  · exact hkeep e.2 s₁ value s' hP hvalue hQ
  · exact hkeep e.2 s₁ value s' (hkeep v s key s₁ hP hv hQ₁) hvalue hQ

/-- A key that can be printed: a table as a value, and no boolean. -/
def GoodKey (Good : DumpValue → Prop) : DumpValue → Prop
  | .table id => Good (.table id)
  | .boolean _ => False
  | _ => True

theorem ends_dumpKey_iff {s : DumpState} (hPQ : P s → Q s) (hP : P s) (hcall : ∀ v, Ends Q (rec v s) ↔ Good v)
    (k : DumpValue) : Ends Q (dumpKey heap rec k s) ↔ GoodKey Good k := by
  cases k with
  | table id => exact hcall _
  | boolean b => exact iff_of_false FuelLoop.not_ends_error id
  | _ => exact iff_of_true (FuelLoop.ends_ok.mpr (hPQ hP)) trivial

/-- A round ends well exactly when its key and its value do. -/
theorem ends_dumpEntry_iff (hrec : ∀ v s text s', rec v s = .ok text s' → Q s' → Q s)
    (hkeep : ∀ v s text s', P s → rec v s = .ok text s' → Q s' → P s') (hPQ : ∀ s, P s → Q s)
    (hcall : ∀ v s, P s → (Ends Q (rec v s) ↔ Good v)) (e : DumpValue × DumpValue) (a : LuaString) (s : DumpState)
    (hP : P s) : Ends Q (dumpEntry heap rec indent e a s) ↔ GoodKey Good e.1 ∧ Good e.2 := by
  -- the key leaves the state of the invariant to the value
  have hafter : ∀ key s₁, dumpKey heap rec e.1 s = .ok key s₁ → Q s₁ → P s₁ := by
    intro key s₁ hkey hQ
    rcases dumpKey_eq_ok hkey with rfl | ⟨v, hv⟩
    · exact hP
    · exact hkeep v s key s₁ hP hv hQ
  rw [← ends_dumpKey_iff (hPQ s) hP (fun v => hcall v s hP) e.1]
  show Ends Q ((dumpKey heap rec e.1 s).bind _) ↔ _
  rw [FuelLoop.ends_bind_iff]
  constructor
  · rintro ⟨key, s₁, hkey, hrest⟩
    obtain ⟨value, s₂, hvalue, hend⟩ := FuelLoop.ends_bind_iff.mp hrest
    have hQ₂ := FuelLoop.ends_ok.mp hend
    have hQ₁ := hrec e.2 s₁ value s₂ hvalue hQ₂
    exact ⟨⟨key, s₁, hkey, hQ₁⟩, (hcall e.2 s₁ (hafter key s₁ hkey hQ₁)).mp ⟨value, s₂, hvalue, hQ₂⟩⟩
  · rintro ⟨⟨key, s₁, hkey, hQ₁⟩, hgood⟩
    obtain ⟨value, s₂, hvalue, hQ₂⟩ := (hcall e.2 s₁ (hafter key s₁ hkey hQ₁)).mpr hgood
    exact ⟨key, s₁, hkey, FuelLoop.ends_bind_iff.mpr ⟨value, s₂, hvalue, FuelLoop.ends_ok.mpr hQ₂⟩⟩

/-- A round whose calls have enough fuel has enough. -/
theorem dumpEntry_ne_outOfFuel (hcall : ∀ v s, P s → rec v s ≠ .outOfFuel)
    (hkeep : ∀ v s text s', P s → rec v s = .ok text s' → P s') (e : DumpValue × DumpValue) (a : LuaString)
    (s : DumpState) (hP : P s) : dumpEntry heap rec indent e a s ≠ .outOfFuel := by
  refine FuelLoop.bind_ne_outOfFuel ?_ fun key s₁ hkey => FuelLoop.bind_ne_outOfFuel ?_ fun _ _ _ => by simp
  · unfold dumpKey
    cases e.1 with
    | table id => exact hcall _ s hP
    | _ => simp
  · rcases dumpKey_eq_ok hkey with rfl | ⟨v, hv⟩
    · exact hcall e.2 s₁ hP
    · exact hcall e.2 s₁ (hkeep v s key s₁ hP hv)

theorem le_dumpEntry (h : ∀ v s, FuelLoop.Le (rec v s) (rec' v s)) (e : DumpValue × DumpValue) (a : LuaString)
    (s : DumpState) : FuelLoop.Le (dumpEntry heap rec indent e a s) (dumpEntry heap rec' indent e a s) := by
  refine FuelLoop.le_bind ?_ fun key s₁ => FuelLoop.le_bind (h e.2 s₁) fun value s₂ => FuelLoop.le_refl _
  unfold dumpKey
  cases e.1 with
  | table id => exact h _ s
  | _ => exact FuelLoop.le_refl _

end Rounds

/-! ## Fuel and depth -/

section Fuel

variable {heap : DumpHeap} {rec rec' : DumpValue → DumpState → DumpResult} {n : ℕ} {o : DumpValue} {s s' : DumpState}
  {text : LuaString}

theorem le_dumpBody (h : ∀ v s, FuelLoop.Le (rec v s) (rec' v s)) (o : DumpValue) (s : DumpState) :
    FuelLoop.Le (dumpBody heap rec o s) (dumpBody heap rec' o s) := by
  cases o with
  | table id =>
    rcases Nat.lt_or_ge 1 s.depth with hs | hs
    · rw [dumpBody_deep rfl hs, dumpBody_deep rfl hs]
      exact FuelLoop.le_refl _
    by_cases hmem : .table id ∈ s.params
    · rw [dumpBody_visited rfl hs hmem, dumpBody_visited rfl hs hmem]
      exact FuelLoop.le_refl _
    by_cases hb : BridgeLike heap id
    · rcases dumpBody_bridgeLike hb hs hmem with ⟨e, he⟩ | ⟨text, htext⟩
      · rw [he, he]
        exact FuelLoop.le_refl _
      · rw [htext, htext]
        exact FuelLoop.le_refl _
    · rw [dumpBody_plain hb hs hmem, dumpBody_plain hb hs hmem]
      exact FuelLoop.le_bind (FuelLoop.le_loop (le_dumpEntry h) _ _ _) fun _ _ => FuelLoop.le_refl _
  | _ =>
    rw [dumpBody_scalar rfl, dumpBody_scalar rfl]
    exact FuelLoop.le_refl _

/-- More fuel gives the same answer. -/
theorem dumpInternal_le (n : ℕ) (o : DumpValue) (s : DumpState) :
    FuelLoop.Le (dumpInternal heap n o s) (dumpInternal heap (n + 1) o s) := by
  induction n generalizing o s with
  | zero => exact fun h => absurd rfl h
  | succ n ih => exact le_dumpBody ih o s

theorem dumpInternal_le_add (n m : ℕ) (o : DumpValue) (s : DumpState) :
    FuelLoop.Le (dumpInternal heap n o s) (dumpInternal heap (n + m) o s) := by
  induction m with
  | zero => exact FuelLoop.le_refl _
  | succ m ih => exact FuelLoop.le_trans ih (dumpInternal_le (n + m) o s)

/-- A call that is not balanced stays in the record. -/
theorem dumpInternal_back (n : ℕ) : ∀ (o : DumpValue) (s : DumpState) (text : LuaString) (s' : DumpState),
    dumpInternal heap n o s = .ok text s' → s'.Balanced → s.Balanced := by
  induction n with
  | zero =>
    intro o s text s' h
    cases h
  | succ n ih =>
    intro o s text s' h hbalanced
    rcases dumpBody_eq_ok h with rfl | ⟨-, rfl⟩ | rfl | ⟨id, indent, text', u, rfl, hloop, rfl⟩
    · exact (balanced_returns.mp hbalanced).2
    · exact (balanced_returns.mp hbalanced).2
    · exact (balanced_returns.mp hbalanced).2
    · have hu : u.Balanced := (balanced_returns.mp hbalanced).2
      have hstart : (s.ascend.mark (.table id)).Balanced := FuelLoop.loop_back (dumpEntry_back ih) _ _ _ _ _ hloop hu
      exact hstart

/-- No call leaves a smaller depth. -/
theorem dumpInternal_depth (n : ℕ) : ∀ (o : DumpValue) (s : DumpState) (text : LuaString) (s' : DumpState),
    dumpInternal heap n o s = .ok text s' → s.depth ≤ s'.depth := by
  induction n with
  | zero =>
    intro o s text s' h
    cases h
  | succ n ih =>
    intro o s text s' h
    rcases dumpBody_eq_ok h with rfl | ⟨-, rfl⟩ | rfl | ⟨id, indent, text', u, rfl, hloop, rfl⟩
    · exact le_refl _
    · exact le_refl _
    · exact Nat.le_succ _
    · have hdeeper : s.depth + 1 ≤ u.depth :=
        FuelLoop.loop_keep (P := fun u => s.depth + 1 ≤ u.depth) (Q := fun _ => True) (fun _ _ _ _ _ _ _ => trivial)
          (dumpEntry_keep (fun _ _ _ _ _ _ => trivial) fun v u text u' hu h _ => le_trans hu (ih v u text u' h))
          _ _ _ _ _ (le_refl _) hloop trivial
      show s.depth ≤ u.depth - 1
      omega

/-- A table with enough fuel for its entries has enough. -/
theorem dumpBody_ne_outOfFuel
    (hcall : s.depth ≤ 1 → ∀ v u, s.depth + 1 ≤ u.depth → rec v u ≠ .outOfFuel)
    (hdepth : ∀ v u text u', rec v u = .ok text u' → u.depth ≤ u'.depth) :
    dumpBody heap rec o s ≠ .outOfFuel := by
  cases o with
  | table id =>
    rcases Nat.lt_or_ge 1 s.depth with hs | hs
    · rw [dumpBody_deep rfl hs]
      simp
    by_cases hmem : .table id ∈ s.params
    · rw [dumpBody_visited rfl hs hmem]
      simp
    by_cases hb : BridgeLike heap id
    · rcases dumpBody_bridgeLike hb hs hmem with ⟨e, he⟩ | ⟨text, htext⟩
      · rw [he]
        simp
      · rw [htext]
        simp
    · rw [dumpBody_plain hb hs hmem]
      refine FuelLoop.bind_ne_outOfFuel ?_ fun _ _ _ => by simp
      refine FuelLoop.loop_ne_outOfFuel (P := fun u => s.depth + 1 ≤ u.depth) (fun e a u hu => ?_)
        (fun e a u a' u' hu h => ?_) _ _ _ (le_refl _)
      · exact dumpEntry_ne_outOfFuel (hcall hs) (fun v u text u' hu h => le_trans hu (hdepth v u text u' h)) e a u hu
      · exact dumpEntry_keep (Q := fun _ => True) (fun _ _ _ _ _ _ => trivial)
          (fun v u text u' hu h _ => le_trans hu (hdepth v u text u' h)) e a u a' u' hu h trivial
  | _ =>
    rw [dumpBody_scalar rfl]
    split_ifs <;> simp

/-- A depth of 2 needs one call, and every lower depth one more. -/
theorem dumpInternal_ne_outOfFuel (n : ℕ) : ∀ (o : DumpValue) (s : DumpState), 2 ≤ n + s.depth →
    dumpInternal heap (n + 1) o s ≠ .outOfFuel := by
  induction n with
  | zero =>
    intro o s hs
    exact dumpBody_ne_outOfFuel (fun h => absurd h (by omega)) (dumpInternal_depth 0)
  | succ n ih =>
    intro o s hs
    exact dumpBody_ne_outOfFuel (fun _ v u hu => ih v u (by omega)) (dumpInternal_depth (n + 1))

/-- **`dump` terminates** on every value. -/
theorem dump_ne_outOfFuel (o : DumpValue) : dump heap 3 o ≠ .outOfFuel :=
  dumpInternal_ne_outOfFuel 2 o _ (by omega)

end Fuel

/-! ## The two levels -/

section Levels

variable {heap : DumpHeap} {n d id root : ℕ} {T : ℕ → Prop} {s s' : DumpState} {o : DumpValue} {text : LuaString}

/-- A state at a depth with all calls balanced, where only tables of `T` have been printed, and `root` has. -/
structure AtDepth (d : ℕ) (T : ℕ → Prop) (root : ℕ) (s : DumpState) : Prop where
  depth : s.depth = d
  balanced : s.Balanced
  printed : ∀ t, .table t ∈ s.params → T t
  root : .table root ∈ s.params

theorem AtDepth.mark_scalar (h : AtDepth d T root s) (ho : o.isTable = false) :
    AtDepth d T root ((s.mark o).returns d) where
  depth := h.depth
  balanced := balanced_returns.mpr ⟨h.depth.symm, h.balanced⟩
  printed t ht := by
    rcases List.mem_cons.mp ht with rfl | ht
    · cases ho
    · exact h.printed t ht
  root := List.mem_cons_of_mem _ h.root

theorem AtDepth.returns (h : AtDepth d T root s) : AtDepth d T root (s.returns d) where
  depth := h.depth
  balanced := balanced_returns.mpr ⟨h.depth.symm, h.balanced⟩
  printed := h.printed
  root := h.root

/-- A number, string or boolean is printed unless it is NaN. -/
theorem ends_scalar_iff {rec : DumpValue → DumpState → DumpResult} (hs : s.Balanced) (ho : o.isTable = false) :
    Ends DumpState.Balanced (dumpBody heap rec o s) ↔ o ≠ .number .nan := by
  rw [dumpBody_scalar ho]
  split_ifs with hnan
  · exact iff_of_false FuelLoop.not_ends_error fun hne => hne hnan
  · exact iff_of_true (FuelLoop.ends_ok.mpr (balanced_returns.mpr ⟨rfl, hs⟩)) hnan

theorem AtDepth.scalar (h : AtDepth d T root s) (ho : o.isTable = false)
    (hcall : dumpInternal heap (n + 1) o s = .ok text s') : AtDepth d T root s' := by
  change dumpBody heap (dumpInternal heap n) o s = _ at hcall
  rw [dumpBody_scalar ho] at hcall
  split_ifs at hcall
  obtain ⟨-, rfl⟩ := Result.ok.inj hcall
  rw [h.depth]
  exact h.mark_scalar ho

/-- At depth 2 everything but NaN is printed, tables as `<table>`. -/
theorem ends_deep_iff (h : AtDepth 2 T root s) :
    Ends DumpState.Balanced (dumpInternal heap (n + 1) o s) ↔ o ≠ .number .nan := by
  cases ho : o.isTable with
  | false => exact ends_scalar_iff h.balanced ho
  | true =>
    have hdeep : dumpInternal heap (n + 1) o s = .ok "<table>".toList (s.returns s.depth) :=
      dumpBody_deep ho (by rw [h.depth]; omega)
    rw [hdeep]
    refine iff_of_true (FuelLoop.ends_ok.mpr (balanced_returns.mpr ⟨rfl, h.balanced⟩)) ?_
    rintro rfl
    cases ho

theorem AtDepth.deep (h : AtDepth 2 T root s) (hcall : dumpInternal heap (n + 1) o s = .ok text s') :
    AtDepth 2 T root s' := by
  cases ho : o.isTable with
  | false => exact h.scalar ho hcall
  | true =>
    have hdeep : dumpInternal heap (n + 1) o s = .ok "<table>".toList (s.returns s.depth) :=
      dumpBody_deep ho (by rw [h.depth]; omega)
    obtain ⟨-, rfl⟩ := Result.ok.inj (hdeep.symm.trans hcall)
    rw [h.depth]
    exact h.returns

/-- The entries of a plain table that is printed, from calls that keep to the next depth. -/
theorem ends_plain_iff {rec : DumpValue → DumpState → DumpResult} {Good : DumpValue → Prop}
    (hb : ¬ BridgeLike heap id) (hs : s.depth = d) (hd : d ≤ 1) (hnew : .table id ∉ s.params)
    (hrec : ∀ v u text u', rec v u = .ok text u' → u'.Balanced → u.Balanced)
    (hkeep : ∀ v u text u', AtDepth (d + 1) T root u → rec v u = .ok text u' → u'.Balanced →
      AtDepth (d + 1) T root u')
    (hcall : ∀ v u, AtDepth (d + 1) T root u → (Ends DumpState.Balanced (rec v u) ↔ Good v))
    (hstart : AtDepth (d + 1) T root (s.ascend.mark (.table id))) :
    Ends DumpState.Balanced (dumpBody heap rec (.table id) s) ↔
      ∀ e ∈ heap.entries id, GoodKey Good e.1 ∧ Good e.2 := by
  rw [dumpBody_plain hb (by omega) hnew, FuelLoop.ends_bind_iff,
    ← FuelLoop.ends_loop_iff (dumpEntry_back hrec) (dumpEntry_keep hrec hkeep) (fun _ h => h.balanced)
      (ends_dumpEntry_iff hrec hkeep (fun _ h => h.balanced) hcall) (heap.entries id) hstart]
  constructor
  · rintro ⟨text, u, hloop, hend⟩
    exact ⟨text, u, hloop, (balanced_returns.mp (FuelLoop.ends_ok.mp hend)).2⟩
  · rintro ⟨text, u, hloop, hu⟩
    have hwithin := FuelLoop.loop_keep (dumpEntry_back hrec) (dumpEntry_keep hrec hkeep) _ _ _ _ _ hstart hloop hu
    refine ⟨text, u, hloop, FuelLoop.ends_ok.mpr (balanced_returns.mpr ⟨?_, hu⟩)⟩
    show s.depth = u.depth - 1
    rw [hwithin.depth, hs]
    omega

/-- What such a table leaves: the state after its entries, one level up. -/
theorem AtDepth.plain {rec : DumpValue → DumpState → DumpResult} (hb : ¬ BridgeLike heap id) (hs : s.depth = d)
    (hd : d ≤ 1) (hnew : .table id ∉ s.params)
    (hrec : ∀ v u text u', rec v u = .ok text u' → u'.Balanced → u.Balanced)
    (hkeep : ∀ v u text u', AtDepth (d + 1) T root u → rec v u = .ok text u' → u'.Balanced →
      AtDepth (d + 1) T root u')
    (hstart : AtDepth (d + 1) T root (s.ascend.mark (.table id)))
    (hcall : dumpBody heap rec (.table id) s = .ok text s') (hs' : s'.Balanced) : AtDepth d T root s' := by
  rw [dumpBody_plain hb (by omega) hnew] at hcall
  obtain ⟨text', u, hloop, hend⟩ := FuelLoop.bind_eq_ok_iff.mp hcall
  obtain ⟨-, rfl⟩ := Result.ok.inj hend
  have hu := (balanced_returns.mp hs').2
  have hwithin := FuelLoop.loop_keep (dumpEntry_back hrec) (dumpEntry_keep hrec hkeep) _ _ _ _ _ hstart hloop hu
  refine ⟨?_, hs', hwithin.printed, hwithin.root⟩
  show u.depth - 1 = d
  rw [hwithin.depth]
  omega

theorem goodKey_iff {Good : DumpValue → Prop} {k : DumpValue} :
    GoodKey Good k ↔ (∀ b, k ≠ .boolean b) ∧ ∀ t, k = .table t → Good (.table t) := by
  cases k <;> simp [GoodKey]

/-- Entering a table. -/
theorem AtDepth.enter (h : AtDepth d T root s) (hT : T id) : AtDepth (d + 1) T root (s.ascend.mark (.table id)) where
  depth := congrArg (· + 1) h.depth
  balanced := h.balanced
  printed t ht := by
    rcases List.mem_cons.mp ht with ht | ht
    · obtain rfl := DumpValue.table.inj ht
      exact hT
    · exact h.printed t ht
  root := List.mem_cons_of_mem _ h.root

/-- A table met for the first time at depth 1 is printed exactly when it is plain. -/
theorem ends_table_iff (h : AtDepth 1 T root s) (hnew : .table id ∉ s.params) :
    Ends DumpState.Balanced (dumpInternal heap (n + 2) (.table id) s) ↔ Plain heap id := by
  by_cases hb : BridgeLike heap id
  · exact iff_of_false (not_ends_bridgeLike hb (le_of_eq h.depth) hnew) fun hplain => hplain.notBridge hb
  have hmore : AtDepth 1 (fun t => T t ∨ t = id) root s :=
    ⟨h.depth, h.balanced, fun t ht => Or.inl (h.printed t ht), h.root⟩
  refine (ends_plain_iff hb h.depth (le_refl 1) hnew (dumpInternal_back (n + 1))
    (fun _ _ _ _ hu hcall _ => hu.deep hcall) (fun _ _ hu => ends_deep_iff hu) (hmore.enter (Or.inr rfl))).trans ?_
  constructor
  · exact fun hall => ⟨hb, fun e he => (goodKey_iff.mp (hall e he).1).1, fun e he => (hall e he).2⟩
  · exact fun hplain e he => ⟨goodKey_iff.mpr ⟨hplain.keys e he, fun _ _ => by simp⟩, hplain.values e he⟩

/-- The tables that can have been printed without an error: the outermost one, and plain ones. -/
def Printed (heap : DumpHeap) (root t : ℕ) : Prop := t = root ∨ Plain heap t

/-- A value at depth 1. -/
theorem ends_inner_iff (h : AtDepth 1 (Printed heap root) root s) :
    Ends DumpState.Balanced (dumpInternal heap (n + 2) o s) ↔
      o ≠ .number .nan ∧ ∀ t, o = .table t → Printed heap root t := by
  cases o with
  | table id =>
    by_cases hmem : .table id ∈ s.params
    · have hvisited : dumpInternal heap (n + 2) (.table id) s = .ok "<recursion>".toList (s.returns s.depth) :=
        dumpBody_visited rfl (le_of_eq h.depth) hmem
      rw [hvisited]
      refine iff_of_true (FuelLoop.ends_ok.mpr (balanced_returns.mpr ⟨rfl, h.balanced⟩)) ⟨by simp, fun t ht => ?_⟩
      obtain rfl := DumpValue.table.inj ht
      exact h.printed id hmem
    · rw [ends_table_iff h hmem]
      constructor
      · intro hplain
        refine ⟨by simp, fun t ht => ?_⟩
        obtain rfl := DumpValue.table.inj ht
        exact Or.inr hplain
      · intro hprinted
        refine (hprinted.2 id rfl).resolve_left ?_
        rintro rfl
        exact hmem h.root
  | _ =>
    refine (ends_scalar_iff h.balanced rfl).trans ?_
    exact (and_iff_left fun t ht => by cases ht).symm

theorem AtDepth.inner (h : AtDepth 1 (Printed heap root) root s) (hcall : dumpInternal heap (n + 2) o s = .ok text s')
    (hs' : s'.Balanced) : AtDepth 1 (Printed heap root) root s' := by
  cases o with
  | table id =>
    by_cases hmem : .table id ∈ s.params
    · have hvisited : dumpInternal heap (n + 2) (.table id) s = .ok "<recursion>".toList (s.returns s.depth) :=
        dumpBody_visited rfl (le_of_eq h.depth) hmem
      obtain ⟨-, rfl⟩ := Result.ok.inj (hvisited.symm.trans hcall)
      rw [h.depth]
      exact h.returns
    · have hplain : Plain heap id := (ends_table_iff h hmem).mp ⟨text, s', hcall, hs'⟩
      exact AtDepth.plain hplain.notBridge h.depth (le_refl 1) hmem (dumpInternal_back (n + 1))
        (fun _ _ _ _ hu hcall _ => hu.deep hcall) (h.enter (Or.inr hplain)) hcall hs'
  | _ => exact h.scalar rfl hcall

/-- The outermost call. -/
theorem ends_dump_iff : Ends DumpState.Balanced (dump heap (n + 3) o) ↔ DumpsWhen heap o := by
  have hbody : dump heap (n + 3) o = dumpBody heap (dumpInternal heap (n + 2)) o ⟨0, [], []⟩ := rfl
  unfold DumpsWhen
  rw [hbody]
  cases o with
  | table id =>
    have hnew : DumpValue.table id ∉ (⟨0, [], []⟩ : DumpState).params := by simp
    have hstart : AtDepth 1 (Printed heap id) id (DumpState.mark (DumpState.ascend ⟨0, [], []⟩) (.table id)) :=
      ⟨rfl, fun c hc => (by cases hc), fun t ht => Or.inl (DumpValue.table.inj (List.mem_singleton.mp ht)),
        List.mem_singleton.mpr rfl⟩
    by_cases hb : BridgeLike heap id
    · exact iff_of_false (not_ends_bridgeLike hb (Nat.zero_le 1) hnew) fun h => (h.2 id rfl).1.notBridge hb
    refine (ends_plain_iff (s := ⟨0, [], []⟩) hb rfl (Nat.zero_le 1) hnew (dumpInternal_back (n + 2))
      (fun _ _ _ _ hu hcall hs' => hu.inner hcall hs') (fun _ _ hu => ends_inner_iff hu) hstart).trans ?_
    constructor
    · intro hall
      have hplain : Plain heap id :=
        ⟨hb, fun e he => (goodKey_iff.mp (hall e he).1).1, fun e he => (hall e he).2.1⟩
      refine ⟨by simp, fun id' hid => ?_⟩
      obtain rfl := DumpValue.table.inj hid
      refine ⟨hplain, fun e he t ht => ?_⟩
      have hprinted : Printed heap id t := by
        rcases ht with ht | ht
        · exact ((goodKey_iff.mp (hall e he).1).2 t ht).2 t rfl
        · exact (hall e he).2.2 t ht
      rcases hprinted with rfl | h
      · exact hplain
      · exact h
    · rintro ⟨-, h⟩ e he
      obtain ⟨hplain, htables⟩ := h id rfl
      refine ⟨goodKey_iff.mpr ⟨hplain.keys e he, fun t ht => ⟨by simp, fun t' ht' => ?_⟩⟩, hplain.values e he,
        fun t ht => Or.inr (htables e he t (Or.inr ht))⟩
      obtain rfl := DumpValue.table.inj ht'
      exact Or.inr (htables e he t (Or.inl ht))
  | _ =>
    rw [ends_scalar_iff (fun c hc => by cases hc) rfl]
    exact (and_iff_left fun t ht => by cases ht).symm

/-- Fuel 3 tells. -/
theorem dumpsBalanced_iff_ends : DumpsBalanced heap o ↔ Ends DumpState.Balanced (dump heap 3 o) := by
  constructor
  · rintro ⟨fuel, text, s, hdump, hs⟩
    have hmore : dump heap (fuel + 3) o = dump heap fuel o :=
      dumpInternal_le_add fuel 3 o _ (by rw [show dumpInternal heap fuel o _ = _ from hdump]; simp)
    exact ends_dump_iff.mpr (ends_dump_iff.mp ⟨text, s, hmore.trans hdump, hs⟩)
  · exact fun h => ⟨3, h⟩

/-- **`dump` is total and balanced** exactly under `DumpsWhen`. -/
theorem dumpsBalanced_iff (heap : DumpHeap) (o : DumpValue) : DumpsBalanced heap o ↔ DumpsWhen heap o :=
  dumpsBalanced_iff_ends.trans ends_dump_iff

/-- `java.lang.String.fields` with one field. -/
def fieldsHeap : DumpHeap where
  object
    | 0 => .plain ⟨[(.string "hash".toList, .table 1)], by decide, by decide⟩
    | _ => .jfieldId "jfield_id@0x42 java.lang.String.hash type=I".toList
  numberText _ := []
  address _ := []

/-- After the field the depth is one too large. -/
theorem fields_not_dumpsBalanced : ¬ DumpsBalanced fieldsHeap (.table 0) := by
  intro h
  have hwhen := ends_dump_iff.mp (dumpsBalanced_iff_ends.mp h)
  have hplain := (hwhen.2 0 rfl).2 (.string "hash".toList, .table 1) (List.mem_singleton.mpr rfl) 1 (Or.inr rfl)
  exact hplain.notBridge (Or.inr (Or.inl rfl))

end Levels

end YellowTree
