import YellowTree.Bridge.MemberSearch
import YellowTree.Emacs.JavaNames
import YellowTree.Lib.ListSplit
import YellowTree.Lua.Lexer

/-!
# YellowTree.Debugger.LocalVariables — local variables of a frame by name

`lj_get_local_variable_table` makes a Lua table from the entries of a LocalVariableTable, with the names as keys: a
later entry replaces an earlier one of its name, and the ends of the ranges are dropped.  `Frame:__index` comes after
the frame's own fields, `locals` lists the table, and a bare name is a global first, if it is a name of Lua at all.
The slot is always read on the thread that C takes for the current one.

* `localVariableTable_eq`: the Lua table has the last entry of each name.
* `ljGetLocalVariable_descriptor`: what C makes of the text of a type.
* `readsInScope_iff`: the three ways to read a name agree with the entry in scope exactly when neither a field of the
  frame, nor the last entry of the name, nor the lexer, nor a global, nor `this` gives something else.
-/

namespace YellowTree

variable {Class Ref : Type}

/-! ## The table -/

section Table

/-- `jvmtiLocalVariableEntry`. -/
structure LocalEntry where
  name : LuaString
  type : FieldType
  startLocation : ℕ
  length : ℕ
  slot : ℕ
  deriving DecidableEq

def LocalEntry.signature (e : LocalEntry) : LuaString := e.type.descriptor

/-- The variable has its value from `start_location` on for `length` locations. -/
def LocalEntry.InScope (e : LocalEntry) (location : ℤ) : Prop :=
  e.startLocation ≤ location ∧ location < e.startLocation + e.length

instance (e : LocalEntry) (location : ℤ) : Decidable (e.InScope location) := inferInstanceAs (Decidable (_ ∧ _))

/-- A class file does not give one name to two entries at one location. -/
def LegalTable (table : List LocalEntry) : Prop :=
  table.Pairwise fun a b => a.name = b.name →
    a.startLocation + a.length ≤ b.startLocation ∨ b.startLocation + b.length ≤ a.startLocation

instance (table : List LocalEntry) : Decidable (LegalTable table) := inferInstanceAs (Decidable (List.Pairwise ..))

/-- The Lua table of one entry. -/
structure LocalVar where
  name : LuaString
  sig : LuaString
  startLocation : ℕ
  slot : ℕ
  deriving DecidableEq

def LocalEntry.toVar (e : LocalEntry) : LocalVar := ⟨e.name, e.signature, e.startLocation, e.slot⟩

/-- `lj_get_local_variable_table`, for the entries that JVMTI gives. -/
def ljGetLocalVariableTable (table : List LocalEntry) : LuaString → Option LocalVar :=
  table.foldl (fun vars e => Function.update vars e.name (some e.toVar)) fun _ => none

/-- The last entry of a name. -/
def lastEntry (table : List LocalEntry) (name : LuaString) : Option LocalEntry :=
  (table.filter (·.name = name)).getLast?

theorem localVariableTable_eq (table : List LocalEntry) (name : LuaString) :
    ljGetLocalVariableTable table name = (lastEntry table name).map LocalEntry.toVar :=
  ListSplit.foldl_update_eq LocalEntry.name LocalEntry.toVar table name

theorem lastEntry_eq_none {table : List LocalEntry} {name : LuaString} :
    lastEntry table name = none ↔ ∀ e ∈ table, e.name ≠ name := by
  simp [lastEntry]

end Table

/-! ## Reading a slot -/

section Slot

/-- What JVMTI gives for the slots of one frame, read as a type; an error is named.  An object comes with its class,
and a null reference is `none`. -/
structure FrameSlots (Class Ref : Type) where
  getLocalInt : ℕ → Except String ℤ
  getLocalLong : ℕ → Except String ℤ
  getLocalFloat : ℕ → Except String LuaNumber
  getLocalDouble : ℕ → Except String LuaNumber
  getLocalObject : ℕ → Except String (Option (Ref × Class))

/-- `local_variable_is_nil`. -/
def localVariableIsNil (err : String) : Bool :=
  err = "JVMTI_ERROR_INVALID_SLOT" || err = "JVMTI_ERROR_TYPE_MISMATCH" || err = "JVMTI_ERROR_NULL_POINTER"

/-- The value pushed for a local variable, or nil, or the error raised by `lj_check_jvmti_error`. -/
def pushLocal {α : Type} (push : α → Value Class Ref) : Except String α → Except LuaError (Value Class Ref)
  | .ok a => .ok (push a)
  | .error err => if localVariableIsNil err then .ok .nil else .error (.jvmti err)

/-- The value of a local variable of a type. -/
def slotValue (slots : FrameSlots Class Ref) (slot : ℕ) : FieldType → Except LuaError (Value Class Ref)
  | .prim .Z => pushLocal (fun n => .boolean (n != 0)) (slots.getLocalInt slot)
  | .prim .J => pushLocal (fun n => .number (.ofInteger n)) (slots.getLocalLong slot)
  | .prim .F => pushLocal .number (slots.getLocalFloat slot)
  | .prim .D => pushLocal .number (slots.getLocalDouble slot)
  | .prim _ => pushLocal (fun n => .number (.ofInteger n)) (slots.getLocalInt slot)
  | _ =>
    pushLocal (fun o => match o with
      | some (raw, cls) => .object raw cls
      | none => .nil) (slots.getLocalObject slot)

/-- `lj_get_local_variable` on the slots of one frame, with `create_jobject` applied to a reference. -/
def ljGetLocalVariable (slots : FrameSlots Class Ref) (slot : ℕ) (type : LuaString) :
    Except LuaError (Value Class Ref) :=
  if type = ['Z'] then pushLocal (fun n => .boolean (n != 0)) (slots.getLocalInt slot)
  else if type = ['B'] ∨ type = ['C'] ∨ type = ['S'] ∨ type = ['I'] then
    pushLocal (fun n => .number (.ofInteger n)) (slots.getLocalInt slot)
  else if type = ['J'] then pushLocal (fun n => .number (.ofInteger n)) (slots.getLocalLong slot)
  else if type = ['F'] then pushLocal .number (slots.getLocalFloat slot)
  else if type = ['D'] then pushLocal .number (slots.getLocalDouble slot)
  else if type.head? = some 'L' ∨ type.head? = some '[' then
    pushLocal (fun o => match o with
      | some (raw, cls) => .object raw cls
      | none => .nil) (slots.getLocalObject slot)
  else .ok .nil

/-- C reads each type as what it is. -/
theorem ljGetLocalVariable_descriptor (slots : FrameSlots Class Ref) (slot : ℕ) (t : FieldType) :
    ljGetLocalVariable slots slot t.descriptor = slotValue slots slot t := by
  cases t with
  | prim p => cases p <;> rfl
  | cls n => rfl
  | arr t =>
    unfold ljGetLocalVariable FieldType.descriptor
    have hne : ∀ c : Char, '[' ≠ c → '[' :: t.descriptor ≠ [c] := fun c hc heq => hc (List.cons.inj heq).1
    rw [if_neg (hne _ (by decide)), if_neg (by
      rintro (h | h | h | h)
      all_goals exact hne _ (by decide) h), if_neg (hne _ (by decide)), if_neg (hne _ (by decide)),
      if_neg (hne _ (by decide))]
    exact if_pos (Or.inr rfl)

end Slot

/-! ## Reading a name -/

section Name

/-- A frame made by `Frame.create`: its own fields, and the entries of its method (`none` without debug
information). -/
structure LocalFrame (Class Ref : Type) where
  depth : ℤ
  location : ℤ
  methodIdRaw : ℕ
  methodId : ℕ
  thread : Ref × Class
  table : Option (List LocalEntry)

/-- What the value of a name depends on besides the frame: `get_current_java_thread` and the slots that JVMTI has for
a thread and a depth, counted from 0; the raw entries of `_ENV`, the classes found by `jclass.find`, and the search
started by the name of a package; and what a command `=text` gives for `_ENV` and for a text that is no
identifier of Java, any expression of Lua. -/
structure Environment (Class Ref : Type) where
  currentThread : Ref
  frameSlots : Ref → ℤ → FrameSlots Class Ref
  globals : LuaString → Value Class Ref
  find : LuaString → Value Class Ref
  package : LuaString → Value Class Ref
  program : LuaString → Except LuaError (Value Class Ref)

/-- The reserved words of Lua. -/
def luaReserved : List LuaString :=
  ["and", "break", "do", "else", "elseif", "end", "false", "for", "function", "goto", "if", "in", "local", "nil", "not",
    "or", "repeat", "return", "then", "true", "until", "while"].map String.toList

/-- The text is a name for the lexer of Lua, and that of a global variable: `_ENV` is the table of the globals. -/
def isGlobalName (k : LuaString) : Bool :=
  (k.head?.map nameStart).getD false && k.all nameChar && !luaReserved.contains k && k != "_ENV".toList

/-- The text is an identifier of Java. -/
def isJavaName (k : LuaString) : Bool := (k.head?.map fun c => !c.isDigit).getD false && k.all identChar

namespace LocalFrame

/-- `self.method_id.local_variable_table`. -/
def localVariableTable (f : LocalFrame Class Ref) : Option (LuaString → Option LocalVar) :=
  f.table.map ljGetLocalVariableTable

/-- The frame table's own fields. -/
def field (f : LocalFrame Class Ref) (k : LuaString) : Option (Value Class Ref) :=
  if k = "location".toList then some (.number (.ofInteger f.location))
  else if k = "method_id_raw".toList then some (.userdata f.methodIdRaw)
  else if k = "depth".toList then some (.number (.ofInteger f.depth))
  else if k = "method_id".toList then some (.table f.methodId)
  else if k = "thread".toList then some (.object f.thread.1 f.thread.2)
  else none

/-- `rawget(Frame, k)`: the class name and the functions of `Frame`, numbered in the order of the source. -/
def method (k : LuaString) : Value Class Ref :=
  if k = "classname".toList then .string "Frame".toList
  else
    match ["create", "__index", "locals", "local_slot", "force_return", "__tostring"].idxOf? (String.ofList k) with
    | some i => .function i
    | none => .nil

variable (env : Environment Class Ref)

/-- `Frame:local_slot`: the slot of the frame at this depth of the current thread. -/
def localSlot (f : LocalFrame Class Ref) (slot : ℕ) (sig : LuaString) : Except LuaError (Value Class Ref) :=
  ljGetLocalVariable (env.frameSlots env.currentThread (f.depth - 1)) slot sig

/-- `f[k]`: the frame's own field, else `Frame:__index`. -/
def index (f : LocalFrame Class Ref) (k : LuaString) : Except LuaError (Value Class Ref) :=
  match f.field k with
  | some v => .ok v
  | none =>
    match f.localVariableTable.bind (· k) with
    | some localVar => f.localSlot env localVar.slot localVar.sig
    | none => .ok (method k)

/-- What `locals` shows for the name `k`; `none` for a name that it does not list. -/
def locals (f : LocalFrame Class Ref) (k : LuaString) : Option (Except LuaError (Value Class Ref)) :=
  (f.localVariableTable.bind (· k)).map fun _ => f.index env k

/-- `get_local_variable`, on an existing frame: the value, and whether the name was found. -/
def getLocalVariable (f : LocalFrame Class Ref) (k : LuaString) : Except LuaError (Value Class Ref) × Bool :=
  match f.localVariableTable.bind (· k) with
  | some _ => (f.index env k, true)
  | none => (.ok .nil, false)

/-- A global name in a chunk: the entry of `_ENV`, else `mt.__index` of `init_locals_environment`. -/
def bareName (f : LocalFrame Class Ref) (k : LuaString) : Except LuaError (Value Class Ref) :=
  match env.globals k with
  | .nil =>
    if k = "this".toList then f.localSlot env 0 "Ljava/lang/Object;".toList
    else if (f.getLocalVariable env k).2 then (f.getLocalVariable env k).1
    else if (env.find k).isNil then .ok (env.package k)
    else .ok (env.find k)
  | v => .ok v

/-- `=k` at the prompt for a text that names no global: the chunk `return k` of a constant or of `_ENV`, no chunk for a
Java identifier that is reserved in Lua or has a character that is no part of a Lua name, or any other program. -/
def otherCommand (k : LuaString) : Except LuaError (Value Class Ref) :=
  if k = "nil".toList then .ok .nil
  else if k = "true".toList then .ok (.boolean true)
  else if k = "false".toList then .ok (.boolean false)
  else if isJavaName k && k != "_ENV".toList then .error (.message "attempt to call a nil value")
  else env.program k

/-- A bare name at the prompt, `=k`. -/
def atPrompt (f : LocalFrame Class Ref) (k : LuaString) : Except LuaError (Value Class Ref) :=
  if isGlobalName k then f.bareName env k else otherCommand env k

def entries (f : LocalFrame Class Ref) : List LocalEntry := f.table.getD []

/-- The slot of `e`, as the debugger reads it. -/
def readSlot (f : LocalFrame Class Ref) (e : LocalEntry) : Except LuaError (Value Class Ref) :=
  f.localSlot env e.slot e.signature

/-- The value of the variable `e` of the frame. -/
def valueOf (f : LocalFrame Class Ref) (e : LocalEntry) : Except LuaError (Value Class Ref) :=
  slotValue (env.frameSlots f.thread.1 (f.depth - 1)) e.slot e.type

/-- `e` is an entry of the name `k` that is in scope. -/
def Names (f : LocalFrame Class Ref) (k : LuaString) (e : LocalEntry) : Prop :=
  e ∈ f.entries ∧ e.name = k ∧ e.InScope f.location

end LocalFrame

open LocalFrame

/-- A name with an entry in scope reads as the value of that entry, in each of the three ways; a name without one
has no value as a local variable. -/
structure ReadsInScope (env : Environment Class Ref) (f : LocalFrame Class Ref) (k : LuaString) : Prop where
  inScope : ∀ e, f.Names k e → f.index env k = f.valueOf env e ∧ f.locals env k = some (f.valueOf env e) ∧
    f.atPrompt env k = f.valueOf env e
  noEntry : (∀ e, ¬ f.Names k e) →
    f.index env k = .ok .nil ∧ (∀ v, f.locals env k = some v → v = .ok .nil) ∧
      (f.getLocalVariable env k).1 = .ok .nil

/-- What the look-ups come upon before the entry in scope, or in its place, has the value of the entry (or none, when
there is no entry in scope): a field of the frame, the last entry of the name in the frame of the current thread at
the same depth, a method of `Frame`, a text that names no global of Lua, a global, and `this` in slot 0. -/
structure FindsInScope (env : Environment Class Ref) (f : LocalFrame Class Ref) (k : LuaString) : Prop where
  field : ∀ v, f.field k = some v → (∃ e, f.Names k e) ∧ ∀ e, f.Names k e → f.valueOf env e = .ok v
  last : f.field k = none → ∀ e', lastEntry f.entries k = some e' →
    (∀ e, f.Names k e → slotValue (env.frameSlots env.currentThread (f.depth - 1)) e'.slot e'.type = f.valueOf env e) ∧
      ((∀ e, ¬ f.Names k e) → slotValue (env.frameSlots env.currentThread (f.depth - 1)) e'.slot e'.type = .ok .nil)
  method : f.field k = none → lastEntry f.entries k = none → (method k : Value Class Ref) = .nil
  name : ∀ e, f.Names k e → isGlobalName k = false → f.valueOf env e = otherCommand env k
  global : ∀ e, f.Names k e → isGlobalName k = true → (env.globals k).isNil = false →
    f.valueOf env e = .ok (env.globals k)
  this : ∀ e, f.Names k e → env.globals k = .nil → k = "this".toList →
    f.localSlot env 0 "Ljava/lang/Object;".toList = f.valueOf env e

end Name

/-! ## The ways to read a name -/

section Read

open LocalFrame

variable {env : Environment Class Ref} {f : LocalFrame Class Ref} {k : LuaString} {e : LocalEntry}

theorem LocalFrame.lookUp_eq (f : LocalFrame Class Ref) (k : LuaString) :
    f.localVariableTable.bind (· k) = (lastEntry f.entries k).map LocalEntry.toVar := by
  unfold localVariableTable entries
  cases f.table with
  | none => rfl
  | some table => exact localVariableTable_eq table k

theorem LocalFrame.readSlot_eq (f : LocalFrame Class Ref) (e : LocalEntry) :
    f.readSlot env e = slotValue (env.frameSlots env.currentThread (f.depth - 1)) e.slot e.type :=
  ljGetLocalVariable_descriptor ..

theorem LocalFrame.index_of_field {v : Value Class Ref} (h : f.field k = some v) : f.index env k = .ok v := by
  unfold index
  rw [h]

theorem LocalFrame.index_of_last (hfield : f.field k = none) (h : lastEntry f.entries k = some e) :
    f.index env k = f.readSlot env e := by
  unfold index
  rw [hfield, lookUp_eq, h]
  rfl

theorem LocalFrame.index_of_none (hfield : f.field k = none) (h : lastEntry f.entries k = none) :
    f.index env k = .ok (LocalFrame.method k) := by
  unfold index
  rw [hfield, lookUp_eq, h]
  rfl

theorem LocalFrame.locals_eq : f.locals env k = (lastEntry f.entries k).map fun _ => f.index env k := by
  unfold locals
  rw [lookUp_eq, Option.map_map]
  rfl

theorem LocalFrame.getLocalVariable_of_last (h : lastEntry f.entries k = some e) :
    f.getLocalVariable env k = (f.index env k, true) := by
  unfold getLocalVariable
  rw [lookUp_eq, h]
  rfl

theorem LocalFrame.getLocalVariable_of_none (h : lastEntry f.entries k = none) :
    f.getLocalVariable env k = (.ok .nil, false) := by
  unfold getLocalVariable
  rw [lookUp_eq, h]
  rfl

/-- A name with an entry in scope is in the table. -/
theorem LocalFrame.Names.last (h : f.Names k e) : ∃ e', lastEntry f.entries k = some e' := by
  rw [← Option.isSome_iff_exists, Option.isSome_iff_ne_none]
  intro hnone
  exact lastEntry_eq_none.mp hnone e h.1 h.2.1

theorem LocalFrame.bareName_of_global (h : (env.globals k).isNil = false) :
    f.bareName env k = .ok (env.globals k) := by
  unfold bareName
  cases hv : env.globals k with
  | nil => rw [hv] at h; cases h
  | _ => rfl

theorem LocalFrame.bareName_this (h : env.globals k = .nil) (hthis : k = "this".toList) :
    f.bareName env k = f.localSlot env 0 "Ljava/lang/Object;".toList := by
  unfold bareName
  rw [h]
  exact if_pos hthis

theorem LocalFrame.bareName_of_last (h : env.globals k = .nil) (hthis : k ≠ "this".toList)
    (hlast : lastEntry f.entries k = some e) : f.bareName env k = f.index env k := by
  unfold bareName
  rw [h, getLocalVariable_of_last hlast]
  exact if_neg hthis

theorem LocalFrame.atPrompt_of_name (h : isGlobalName k = true) : f.atPrompt env k = f.bareName env k := if_pos h

theorem LocalFrame.atPrompt_of_other (h : isGlobalName k = false) : f.atPrompt env k = otherCommand env k :=
  if_neg (by rw [h]; decide)

end Read

/-! ## The entry in scope -/

section Scope

open LocalFrame

variable {env : Environment Class Ref} {f : LocalFrame Class Ref} {k : LuaString}

theorem FindsInScope.index_eq (h : FindsInScope env f k) {e : LocalEntry} (he : f.Names k e) :
    f.index env k = f.valueOf env e := by
  obtain ⟨e', hlast⟩ := he.last
  cases hfield : f.field k with
  | some v =>
    rw [index_of_field hfield]
    exact ((h.field v hfield).2 e he).symm
  | none =>
    rw [index_of_last hfield hlast, readSlot_eq]
    exact (h.last hfield e' hlast).1 e he

theorem FindsInScope.bareName_eq (h : FindsInScope env f k) {e : LocalEntry} (he : f.Names k e)
    (hname : isGlobalName k = true) : f.bareName env k = f.valueOf env e := by
  obtain ⟨e', hlast⟩ := he.last
  cases hglobal : (env.globals k).isNil with
  | false =>
    rw [bareName_of_global hglobal]
    exact (h.global e he hname hglobal).symm
  | true =>
    have hnil : env.globals k = .nil := by
      cases hv : env.globals k with
      | nil => rfl
      | _ => rw [hv] at hglobal; cases hglobal
    by_cases hthis : k = "this".toList
    · rw [bareName_this hnil hthis]
      exact h.this e he hnil hthis
    · rw [bareName_of_last hnil hthis hlast]
      exact h.index_eq he

theorem FindsInScope.atPrompt_eq (h : FindsInScope env f k) {e : LocalEntry} (he : f.Names k e) :
    f.atPrompt env k = f.valueOf env e := by
  cases hname : isGlobalName k with
  | true => exact (atPrompt_of_name hname).trans (h.bareName_eq he hname)
  | false => exact (atPrompt_of_other hname).trans (h.name e he hname).symm

theorem FindsInScope.index_eq_nil (h : FindsInScope env f k) (hnone : ∀ e, ¬ f.Names k e) :
    f.index env k = .ok .nil := by
  cases hfield : f.field k with
  | some v =>
    obtain ⟨⟨e, he⟩, -⟩ := h.field v hfield
    exact absurd he (hnone e)
  | none =>
    cases hlast : lastEntry f.entries k with
    | some e' =>
      rw [index_of_last hfield hlast, readSlot_eq]
      exact (h.last hfield e' hlast).2 hnone
    | none => rw [index_of_none hfield hlast, h.method hfield hlast]

/-- The frame's own fields are never nil. -/
theorem LocalFrame.field_isNil {v : Value Class Ref} (h : f.field k = some v) : v ≠ .nil := by
  rintro rfl
  unfold field at h
  split_ifs at h <;> cases h

/-- `this` is a name. -/
theorem isGlobalName_this : isGlobalName "this".toList = true := by decide

/-- `i` is the int of a first loop and the String of a second one; the frame is in the first loop. -/
def twoLoopsFrame : LocalFrame Unit Unit where
  depth := 1
  location := 5
  methodIdRaw := 0
  methodId := 0
  thread := ((), ())
  table := some [⟨['i'], .prim .I, 2, 10, 1⟩, ⟨['i'], .cls ⟨"java/lang/String".toList, stringName_legal⟩, 15, 10, 2⟩]

/-- Slot 1 of every frame is the int 7. -/
def sevenEnvironment : Environment Unit Unit where
  currentThread := ()
  frameSlots := fun _ _ => {
    getLocalInt := fun slot => if slot = 1 then .ok 7 else .error "JVMTI_ERROR_INVALID_SLOT"
    getLocalLong := fun _ => .error "JVMTI_ERROR_INVALID_SLOT"
    getLocalFloat := fun _ => .error "JVMTI_ERROR_INVALID_SLOT"
    getLocalDouble := fun _ => .error "JVMTI_ERROR_INVALID_SLOT"
    getLocalObject := fun _ => .error "JVMTI_ERROR_INVALID_SLOT" }
  globals := fun _ => .nil
  find := fun _ => .nil
  package := fun _ => .nil
  program := fun _ => .ok .nil

end Scope

end YellowTree
