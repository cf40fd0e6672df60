import YellowTree.Bridge.Arguments
import YellowTree.Bridge.ReturnValues
import YellowTree.Jvmti.Events
import YellowTree.Lib.ApiProgram
import YellowTree.Lib.Handles

/-!
# YellowTree.Bridge.NativeInterface — JNI and JVMTI as the bridge calls them

`Jvm.interface` says what the functions of JNI and JVMTI require of the C code that calls them: that no exception is
pending, that memory that is given back is allocated, that GetStringUTFChars gets a string.  It leaves open what they
reply, whether they fail, and whether an exception is thrown.
-/

namespace YellowTree

namespace Native

open ApiProgram Handles

variable {Ref : Type}

/-! ## JNI and JVMTI -/

section Interface

/-- A value that JNI or JVMTI gives. -/
inductive JniValue (Ref : Type) where
  | void
  | boolean (b : Bool)
  | integer (n : ℤ)
  | floating (x : LuaNumber)
  | reference (o : Option Ref)

/-- The calls of JVMTI functions that return an error code only. -/
inductive Request (Ref : Type) where
  | setBreakpoint (method : Ref) (location : ℤ)
  | clearBreakpoint (method : Ref) (location : ℤ)
  | setFieldAccessWatch (cls field : Ref)
  | setFieldModificationWatch (cls field : Ref)
  | forceEarlyReturnObject (thread : Ref) (o : Option Ref)
  | forceEarlyReturnInt (thread : Ref) (n : ℤ)
  | forceEarlyReturnVoid (thread : Ref)
  | destroyRawMonitor (monitor : Ref)
  | rawMonitorEnter (monitor : Ref)
  | rawMonitorExit (monitor : Ref)
  | rawMonitorWait (monitor : Ref) (millis : ℤ)
  | rawMonitorNotify (monitor : Ref)
  | rawMonitorNotifyAll (monitor : Ref)
  | iterateThroughHeap (cls : Ref)
  | setEventNotificationMode (on : Bool) (event : Notification) (thread : Ref)
  | setEventCallbacks

/-- An entry of GetLocalVariableTable. -/
structure VariableEntry where
  name : LuaString
  signature : LuaString
  startLocation : ℤ
  slot : ℤ

/-- The calls of JNI and of JVMTI.  `getMethodName` and `getFieldSig` are calls of GetMethodName and GetFieldName with
null pointers for the other texts.  `undefined` is a step of C without defined behaviour, `abort` an assertion that
fails. -/
inductive ApiOp (Ref : Type) where
  | findClass (name : LuaString)
  | getMethodID (isStatic : Bool) (cls : Ref) (name sig : LuaString)
  | getFieldID (isStatic : Bool) (cls : Ref) (name sig : LuaString)
  | newStringUTF (s : LuaString)
  | callMethod (call : JniCall) (object method : Ref) (args : List (JValue Ref))
  | getField (isStatic : Bool) (kind : RetKind) (object field : Ref)
  | getArrayLength (array : Ref)
  | getArrayElement (kind : RetKind) (array : Ref) (index : ℤ)
  | setArrayElement (array : Ref) (index : ℤ) (v : JValue Ref)
  | newGlobalRef (o : Ref)
  | deleteGlobalRef (o : Ref)
  | getStringUTFChars (s : Option Ref)
  | releaseStringUTFChars (s : Option Ref)
  | exceptionCheck
  | exceptionDescribe
  | exceptionClear
  | deallocate (block : ℕ)
  | request (r : Request Ref)
  | getErrorName (err : String)
  | getMethodName (method : Ref)
  | getMethodNameAndSig (method : Ref)
  | getFieldSig (cls field : Ref)
  | getFieldNameAndSig (cls field : Ref)
  | getClassFields (cls : Ref)
  | getClassMethods (cls : Ref)
  | getSourceFileName (cls : Ref)
  | getLoadedClasses
  | getClassSignature (cls : Ref)
  | getObjectsWithTags
  | getAllThreads
  | getLocalVariableTable (method : Ref)
  | getLineNumberTable (method : Ref)
  | getFieldDeclaringClass (cls field : Ref)
  | getMethodDeclaringClass (method : Ref)
  | getFieldModifiers (cls field : Ref)
  | getMethodModifiers (method : Ref)
  | getLocal (kind : RetKind) (thread : Ref) (depth slot : ℤ)
  | getFrameCount (thread : Ref)
  | getStackTrace (thread : Ref) (start : ℤ)
  | createRawMonitor (name : LuaString)
  | abort
  | undefined

/-- What the calls reply: a null pointer is `none`, a JVMTI error an error.  Memory that JVMTI has allocated comes with
its number. -/
@[reducible] def ApiOp.Reply : ApiOp Ref → Type
  | .findClass _ => Option Ref
  | .getMethodID _ _ _ _ => Option Ref
  | .getFieldID _ _ _ _ => Option Ref
  | .newStringUTF _ => Option Ref
  | .callMethod _ _ _ _ => JniValue Ref
  | .getField _ _ _ _ => JniValue Ref
  | .getArrayLength _ => ℤ
  | .getArrayElement _ _ _ => JniValue Ref
  | .setArrayElement _ _ _ => Unit
  | .newGlobalRef _ => Option Ref
  | .deleteGlobalRef _ => Unit
  | .getStringUTFChars _ => Option LuaString
  | .releaseStringUTFChars _ => Unit
  | .exceptionCheck => Bool
  | .exceptionDescribe => Unit
  | .exceptionClear => Unit
  | .deallocate _ => Unit
  | .request _ => Except String Unit
  | .getErrorName _ => Option ℕ
  | .getMethodName _ => Except String (LuaString × ℕ)
  | .getMethodNameAndSig _ => Except String ((LuaString × ℕ) × (LuaString × ℕ))
  | .getFieldSig _ _ => Except String (LuaString × ℕ)
  | .getFieldNameAndSig _ _ => Except String ((LuaString × ℕ) × (LuaString × ℕ))
  | .getClassFields _ => Except String (List Ref × Option ℕ)
  | .getClassMethods _ => Except String (List Ref × Option ℕ)
  | .getSourceFileName _ => Except String (LuaString × ℕ)
  | .getLoadedClasses => Except String (List Ref × Option ℕ)
  | .getClassSignature _ => Except String (LuaString × ℕ)
  | .getObjectsWithTags => Except String (List Ref × Option (ℕ × ℕ))
  | .getAllThreads => Except String (List Ref × Option ℕ)
  | .getLocalVariableTable _ => Except String (List VariableEntry × Option ℕ)
  | .getLineNumberTable _ => Except String (List (ℤ × ℤ) × Option ℕ)
  | .getFieldDeclaringClass _ _ => Except String Ref
  | .getMethodDeclaringClass _ => Except String Ref
  | .getFieldModifiers _ _ => Except String ℤ
  | .getMethodModifiers _ => Except String ℤ
  | .getLocal _ _ _ _ => Except String (JniValue Ref)
  | .getFrameCount _ => Except String ℤ
  | .getStackTrace _ _ => Except String (Option (ℤ × Ref))
  | .createRawMonitor _ => Except String Ref
  | .abort => Empty
  | .undefined => Empty

/-- Whether an exception is pending, and the memory that JVMTI has allocated.  `lost` are the blocks given for the
signature of a field that is read, for the texts of a variable and for the name of an error. -/
structure NativeState where
  pending : Bool
  blocks : Pool
  lost : List ℕ

namespace NativeState

def init : NativeState := ⟨false, .empty, []⟩

def alloc (s : NativeState) : NativeState := { s with blocks := s.blocks.alloc }

def free (s : NativeState) (b : ℕ) : NativeState := { s with blocks := s.blocks.free b }

def allocLost (s : NativeState) : NativeState := { s with blocks := s.blocks.alloc, lost := s.blocks.next :: s.lost }

def allocManyLost (s : NativeState) : ℕ → NativeState
  | 0 => s
  | n + 1 => s.allocLost.allocManyLost n

def throw (s : NativeState) (pending : Bool) : NativeState := { s with pending := pending }

/-- One block. -/
def Gives (s : NativeState) (b : ℕ) (s' : NativeState) : Prop := b = s.blocks.next ∧ s' = s.alloc

/-- An array; JVMTI allocates no empty one. -/
def GivesArray {α : Type} (s : NativeState) (xs : List α) : Option ℕ → NativeState → Prop
  | none, s' => xs = [] ∧ s' = s
  | some b, s' => xs ≠ [] ∧ s.Gives b s'

/-- After a JVMTI error nothing has changed. -/
def UnlessError {α : Type} (s : NativeState) (r : Except String α) (s' : NativeState) (ok : α → Prop) : Prop :=
  match r with
  | .ok a => ok a
  | .error _ => s' = s

end NativeState

/-- A JVM: the methods that return an object whenever they are called for one, and the failures that occur. -/
structure Jvm (Ref : Type) where
  returnsObject : Ref → Prop
  newStringFails : Prop
  stringCharsFail : Prop
  lineTableFails : Prop

/-- The value is of the kind that is asked for. -/
def JniValue.OfKind : RetKind → JniValue Ref → Prop
  | .void, .void => True
  | .object, .reference _ => True
  | .prim .Z, .boolean _ => True
  | .prim .F, .floating _ => True
  | .prim .D, .floating _ => True
  | .prim _, .integer _ => True
  | _, _ => False

def JniValue.OfCall : JniCall → JniValue Ref → Prop
  | .newObject, v => v.OfKind .object
  | .method _ kind, v => v.OfKind kind

/-- The functions that may be called while an exception is pending; JVMTI functions may. -/
def ApiOp.duringException : ApiOp Ref → Bool
  | .findClass _ => false
  | .getMethodID _ _ _ _ => false
  | .getFieldID _ _ _ _ => false
  | .newStringUTF _ => false
  | .callMethod _ _ _ _ => false
  | .getField _ _ _ _ => false
  | .getArrayLength _ => false
  | .getArrayElement _ _ _ => false
  | .setArrayElement _ _ _ => false
  | .newGlobalRef _ => false
  | .getStringUTFChars _ => false
  | _ => true

/-- What the caller has to see to. -/
def requires (s : NativeState) : ApiOp Ref → Prop
  | .getStringUTFChars o => s.pending = false ∧ o.isSome
  | .deallocate b => b ∈ s.blocks.live
  | .undefined => False
  | o => o.duringException = false → s.pending = false

open NativeState in
/-- The replies, and the state after them. -/
def Jvm.replies (jvm : Jvm Ref) (s : NativeState) : (o : ApiOp Ref) → o.Reply → NativeState → Prop
  | .findClass _, r, s' => s' = s.throw r.isNone
  | .getMethodID _ _ _ _, r, s' => s' = s.throw r.isNone
  | .getFieldID _ _ _ _, r, s' => s' = s.throw r.isNone
  | .newStringUTF _, r, s' => s' = s.throw r.isNone ∧ (r = none → jvm.newStringFails)
  | .callMethod call _ method _, r, s' => r.OfCall call ∧ (jvm.returnsObject method → r ≠ .reference none) ∧
      ∃ pending, s' = s.throw pending
  | .getField _ kind _ _, r, s' => r.OfKind kind ∧ s' = s
  | .getArrayLength _, _, s' => s' = s
  | .getArrayElement kind _ _, r, s' => r.OfKind kind ∧ ∃ pending, s' = s.throw pending
  | .setArrayElement _ _ _, _, s' => ∃ pending, s' = s.throw pending
  | .newGlobalRef _, _, s' => ∃ pending, s' = s.throw pending
  | .deleteGlobalRef _, _, s' => s' = s
  | .getStringUTFChars _, r, s' =>
    if r.isSome then s' = s else jvm.stringCharsFail ∧ ∃ pending, s' = s.throw pending
  | .releaseStringUTFChars _, _, s' => s' = s
  | .exceptionCheck, r, s' => r = s.pending ∧ s' = s
  | .exceptionDescribe, _, s' => s' = s.throw false
  | .exceptionClear, _, s' => s' = s.throw false
  | .deallocate b, _, s' => s' = s.free b
  | .request _, _, s' => s' = s
  | .getErrorName _, r, s' => if r.isSome then r = some s.blocks.next ∧ s' = s.allocLost else s' = s
  | .getMethodName _, r, s' => s.UnlessError r s' fun a => s.Gives a.2 s'
  | .getMethodNameAndSig _, r, s' => s.UnlessError r s' fun a => s.Gives a.1.2 s.alloc ∧ s.alloc.Gives a.2.2 s'
  | .getFieldSig _ _, r, s' => s.UnlessError r s' fun a => a.2 = s.blocks.next ∧ s' = s.allocLost
  | .getFieldNameAndSig _ _, r, s' => s.UnlessError r s' fun a => s.Gives a.1.2 s.alloc ∧ s.alloc.Gives a.2.2 s'
  | .getClassFields _, r, s' => s.UnlessError r s' fun a => s.GivesArray a.1 a.2 s'
  | .getClassMethods _, r, s' => s.UnlessError r s' fun a => s.GivesArray a.1 a.2 s'
  | .getSourceFileName _, r, s' => s.UnlessError r s' fun a => s.Gives a.2 s'
  | .getLoadedClasses, r, s' => s.UnlessError r s' fun a => s.GivesArray a.1 a.2 s'
  | .getClassSignature _, r, s' => s.UnlessError r s' fun a => s.Gives a.2 s'
  | .getObjectsWithTags, r, s' => s.UnlessError r s' fun a =>
      ∃ t, s.GivesArray a.1 (a.2.map Prod.fst) t ∧ t.GivesArray a.1 (a.2.map Prod.snd) s'
  | .getAllThreads, r, s' => s.UnlessError r s' fun a => s.GivesArray a.1 a.2 s'
  | .getLocalVariableTable _, r, s' => s.UnlessError r s' fun a => ∃ t n, s.GivesArray a.1 a.2 t ∧
      2 * a.1.length ≤ n ∧ n ≤ 3 * a.1.length ∧ s' = t.allocManyLost n
  | .getLineNumberTable _, r, s' => s.UnlessError r s' (fun a => s.GivesArray a.1 a.2 s') ∧
      ∀ err, r = .error err → err ≠ "JVMTI_ERROR_NATIVE_METHOD" → err ≠ "JVMTI_ERROR_ABSENT_INFORMATION" →
        jvm.lineTableFails
  | .getFieldDeclaringClass _ _, _, s' => s' = s
  | .getMethodDeclaringClass _, _, s' => s' = s
  | .getFieldModifiers _ _, _, s' => s' = s
  | .getMethodModifiers _, _, s' => s' = s
  | .getLocal kind _ _ _, r, s' => s.UnlessError r s' fun v => v.OfKind kind ∧ s' = s
  | .getFrameCount _, _, s' => s' = s
  | .getStackTrace _ _, _, s' => s' = s
  | .createRawMonitor _, _, s' => s' = s
  | .abort, _, _ => False
  | .undefined, _, _ => False

def Jvm.interface (jvm : Jvm Ref) : Interface (ApiOp Ref) ApiOp.Reply NativeState := ⟨requires, jvm.replies⟩

end Interface

end Native

end YellowTree
