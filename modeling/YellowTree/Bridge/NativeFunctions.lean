import YellowTree.Bridge.NativeInterface
import YellowTree.Jvmti.Registration

/-!
# YellowTree.Bridge.NativeFunctions — the C functions of the bridge, call by call

The functions that `lj_init` registers, as programs that call JNI and JVMTI.  `nativeFunctions` has each of them that
does; a `session` is a sequence of calls that Lua makes.  What the two functions for callbacks do to the references
and the pointers is in `Jvmti.Registration`.
-/

namespace YellowTree

namespace Native

open ApiProgram

variable {Ref : Type}

/-! ## The C side of Lua -/

section LuaApi

/-- A value on the Lua stack. -/
inductive CValue (Ref : Type) where
  | nil
  | boolean (b : Bool)
  | number (n : LuaNumber)
  | string (s : LuaString)
  | jobject (o : Ref)
  | jmethodId (m : Ref)
  | jfieldId (cls f : Ref)
  | jmonitor (m : Ref)
  | table (entries : List (CValue Ref × CValue Ref))
  | function
  | other

/-- A C function, on its arguments. -/
abbrev NativeProg (Ref α : Type) : Type := Prog (ApiOp Ref) ApiOp.Reply LuaError α

variable (e : MarshalEnv)

/-- `luaL_checknumber`. -/
def checkNumber : Option (CValue Ref) → Except LuaError LuaNumber
  | some (.number n) => .ok n
  | some (.string s) =>
    match e.tonumber s with
    | some n => .ok n
    | none => .error (.message "number expected, got string")
  | _ => .error (.message "number expected")

/-- `luaL_checkinteger`. -/
def checkInteger (v : Option (CValue Ref)) : Except LuaError ℤ := (checkNumber e v).map e.cast.cast

/-- `luaL_checkstring`, as C sees the string. -/
def checkString : Option (CValue Ref) → Except LuaError LuaString
  | some (.string s) => .ok (cString s)
  | some (.number n) => .ok (cString (e.tostring n))
  | _ => .error (.message "string expected")

/-- `luaL_checkudata(L, n, "jobject")`. -/
def checkJobject : Option (CValue Ref) → Except LuaError Ref
  | some (.jobject o) => .ok o
  | _ => .error (.message "jobject expected")

def checkMethodId : Option (CValue Ref) → Except LuaError Ref
  | some (.jmethodId m) => .ok m
  | _ => .error (.message "jmethod_id expected")

def checkFieldId : Option (CValue Ref) → Except LuaError (Ref × Ref)
  | some (.jfieldId cls f) => .ok (cls, f)
  | _ => .error (.message "jfield_id expected")

def checkMonitor : Option (CValue Ref) → Except LuaError Ref
  | some (.jmonitor m) => .ok m
  | _ => .error (.message "jmonitor expected")

/-- `luaL_checktype(L, n, LUA_TFUNCTION)`. -/
def checkFunction : Option (CValue Ref) → Except LuaError Unit
  | some .function => .ok ()
  | _ => .error (.message "function expected")

/-- `luaL_checktype(L, n, LUA_TBOOLEAN)` and `lua_toboolean`. -/
def checkBoolean : Option (CValue Ref) → Except LuaError Bool
  | some (.boolean b) => .ok b
  | _ => .error (.message "boolean expected")

/-- `lua_toboolean`. -/
def toBoolean : Option (CValue Ref) → Bool
  | none => false
  | some .nil => false
  | some (.boolean b) => b
  | some _ => true

/-- A table with the keys 1, 2, .. -/
def arrayTable (vs : List (CValue Ref)) : CValue Ref :=
  .table (vs.zipIdx.map fun v => (.number (.ofInteger (v.2 + 1 : ℕ)), v.1))

/-- A table with names for keys. -/
def recordTable (fields : List (String × CValue Ref)) : CValue Ref :=
  .table (fields.map fun f => (.string f.1.toList, f.2))

/-- `new_jobject`. -/
def newJobject : Option Ref → CValue Ref
  | none => .nil
  | some o => .jobject o

/-- What is pushed for a value. -/
def JniValue.push : JniValue Ref → CValue Ref
  | .void => .nil
  | .boolean b => .boolean b
  | .integer n => .number (.ofInteger n)
  | .floating x => .number x
  | .reference o => newJobject o

end LuaApi

/-! ## Helpers of the C functions -/

section Helpers

/-- One call. -/
def api (o : ApiOp Ref) : NativeProg Ref o.Reply := Prog.op o

/-- The macro EXCEPTION_CHECK. -/
def exceptionCheck : NativeProg Ref Unit := do
  if ← api .exceptionCheck then
    api .exceptionDescribe
    api .exceptionClear

/-- The macro EXCEPTION_CLEAR. -/
def exceptionClear : NativeProg Ref Unit := do
  if ← api .exceptionCheck then
    api .exceptionClear

/-- Try the instance member, otherwise the static one. -/
def memberId (instanceMember staticMember : NativeProg Ref (Option Ref)) : NativeProg Ref (Option Ref) := do
  let id ← instanceMember
  exceptionClear
  let id ← match id with
    | some m => pure (some m)
    | none => staticMember
  exceptionClear
  return id

/-- `lj_check_jvmti_error`, after a call that has replied `r`. -/
def checkJvmtiError {α : Type} : Except String α → NativeProg Ref α
  | .ok a => pure a
  | .error err => do
    let _ ← api (.getErrorName err)
    .raise (.jvmti err)

/-- `free_jvmti_refs`; a null pointer is left out. -/
def freeJvmtiRefs : List ℕ → NativeProg Ref Unit
  | [] => pure ()
  | b :: bs => do
    api (.deallocate b)
    freeJvmtiRefs bs

/-- `assert(p)`, for a pointer. -/
def assertNonNull : Option Ref → NativeProg Ref Ref
  | some o => pure o
  | none => do
    let never ← api .abort
    nomatch never

/-- `new_string`. -/
def newString (string : Option Ref) : NativeProg Ref (CValue Ref) := do
  match ← api (.getStringUTFChars string) with
  | some utfChars =>
    api (.releaseStringUTFChars string)
    exceptionCheck
    return .string utfChars
  | none => return .nil

/-- A JVMTI call that returns an error code only. -/
def request (r : Request Ref) : NativeProg Ref (List (CValue Ref)) := do
  checkJvmtiError (← api (.request r))
  return []

/-- `get_current_java_thread`; `lj_current_thread` is null before the first callback. -/
def getCurrentJavaThread : Option Ref → NativeProg Ref Ref
  | some thread => pure thread
  | none => do
    let threadClass ← api (.findClass "java/lang/Thread".toList)
    exceptionCheck
    let threadClass ← assertNonNull threadClass
    let method ← api (.getMethodID true threadClass "currentThread".toList "()Ljava/lang/Thread;".toList)
    exceptionCheck
    let method ← assertNonNull method
    match ← api (.callMethod (.method true .object) threadClass method []) with
    | .reference thread =>
      exceptionCheck
      assertNonNull thread
    | _ => assertNonNull none

end Helpers

/-! ## Classes -/

section Classes

variable (e : MarshalEnv) (args : List (CValue Ref))

def ljFindClass : NativeProg Ref (List (CValue Ref)) := do
  let className ← .ofExcept (checkString e args[0]?)
  match ← api (.findClass className) with
  | none =>
    api .exceptionClear
    return [.nil]
  | some cls => return [.jobject cls]

def ljGetClassFields : NativeProg Ref (List (CValue Ref)) := do
  let cls ← .ofExcept (checkJobject args[0]?)
  let (fields, block) ← checkJvmtiError (← api (.getClassFields cls))
  freeJvmtiRefs block.toList
  return [arrayTable (fields.map (.jfieldId cls))]

def ljGetClassMethods : NativeProg Ref (List (CValue Ref)) := do
  let cls ← .ofExcept (checkJobject args[0]?)
  let (methods, block) ← checkJvmtiError (← api (.getClassMethods cls))
  freeJvmtiRefs block.toList
  return [arrayTable (methods.map .jmethodId)]

def ljGetSourceFilename : NativeProg Ref (List (CValue Ref)) := do
  let cls ← .ofExcept (checkJobject args[0]?)
  match ← api (.getSourceFileName cls) with
  | .error err =>
    if err = "JVMTI_ERROR_ABSENT_INFORMATION" then return [.nil]
    checkJvmtiError (.error err)
  | .ok (sourcefile, block) =>
    freeJvmtiRefs [block]
    return [.string sourcefile]

/-- A round of the loop of `lj_get_loaded_classes`. -/
def loadedClass (cls : Ref) : NativeProg Ref (CValue Ref × CValue Ref) := do
  let (classSig, block) ← checkJvmtiError (← api (.getClassSignature cls))
  let globalRef ← api (.newGlobalRef cls)
  exceptionCheck
  freeJvmtiRefs [block]
  return (.string classSig, newJobject globalRef)

def ljGetLoadedClasses : NativeProg Ref (List (CValue Ref)) := do
  let (classes, block) ← checkJvmtiError (← api .getLoadedClasses)
  let entries ← Prog.each loadedClass classes
  freeJvmtiRefs block.toList
  return [.table entries]

/-- A round of the loop of `lj_get_class_instances`. -/
def classInstance (o : Ref) : NativeProg Ref (CValue Ref) := do
  let globalRef ← api (.newGlobalRef o)
  exceptionCheck
  return newJobject globalRef

def ljGetClassInstances : NativeProg Ref (List (CValue Ref)) := do
  let cls ← .ofExcept (checkJobject args[0]?)
  checkJvmtiError (← api (.request (.iterateThroughHeap cls)))
  let (objects, blocks) ← checkJvmtiError (← api .getObjectsWithTags)
  let entries ← Prog.each classInstance objects
  freeJvmtiRefs (blocks.elim [] fun b => [b.1, b.2])
  return [arrayTable entries]

end Classes

/-! ## Fields -/

section Fields

variable (e : MarshalEnv) (args : List (CValue Ref))

def ljGetFieldId : NativeProg Ref (List (CValue Ref)) := do
  let className ← .ofExcept (checkString e args[0]?)
  let fieldName ← .ofExcept (checkString e args[1]?)
  let sig ← .ofExcept (checkString e args[2]?)
  let cls ← api (.findClass className)
  exceptionClear
  match cls with
  | none => return [.nil]
  | some cls =>
    match ← memberId (api (.getFieldID false cls fieldName sig)) (api (.getFieldID true cls fieldName sig)) with
    | none => return [.nil]
    | some f => return [.jfieldId cls f]

def ljGetFieldName : NativeProg Ref (List (CValue Ref)) := do
  let (cls, field) ← .ofExcept (checkFieldId args[0]?)
  let ((fieldName, nameBlock), (sig, sigBlock)) ← checkJvmtiError (← api (.getFieldNameAndSig cls field))
  freeJvmtiRefs [nameBlock, sigBlock]
  return [recordTable [("name", .string fieldName), ("sig", .string sig)]]

def ljGetFieldDeclaringClass : NativeProg Ref (List (CValue Ref)) := do
  let (cls, field) ← .ofExcept (checkFieldId args[0]?)
  let declaring ← checkJvmtiError (← api (.getFieldDeclaringClass cls field))
  return [.jobject declaring]

def ljGetFieldModifiers : NativeProg Ref (List (CValue Ref)) := do
  let (cls, field) ← .ofExcept (checkFieldId args[0]?)
  let modifiers ← checkJvmtiError (← api (.getFieldModifiers cls field))
  return [.number (.ofInteger modifiers)]

/-- The type of the field, by the first character of the signature and else by the whole. -/
def fieldKind (sig : LuaString) : Option RetKind :=
  if sig.head? = some 'L' ∨ sig.head? = some '[' then some .object else (primOfTag sig).map .prim

/-- The signature is not given back. -/
def ljGetField : NativeProg Ref (List (CValue Ref)) := do
  let object ← .ofExcept (checkJobject args[0]?)
  let (cls, field) ← .ofExcept (checkFieldId args[1]?)
  let _ ← .ofExcept (checkBoolean args[2]?)
  let isStatic := toBoolean args.getLast?
  let (sig, _) ← checkJvmtiError (← api (.getFieldSig cls field))
  match fieldKind sig with
  | some kind =>
    let val ← api (.getField isStatic kind object field)
    exceptionCheck
    return [val.push]
  | none => return [.nil]

def ljSetFieldAccessWatch : NativeProg Ref (List (CValue Ref)) := do
  let (cls, field) ← .ofExcept (checkFieldId args[0]?)
  request (.setFieldAccessWatch cls field)

def ljSetFieldModificationWatch : NativeProg Ref (List (CValue Ref)) := do
  let (cls, field) ← .ofExcept (checkFieldId args[0]?)
  request (.setFieldModificationWatch cls field)

end Fields

/-! ## Methods -/

section Methods

variable (e : MarshalEnv) (args : List (CValue Ref))

def ljGetMethodId : NativeProg Ref (List (CValue Ref)) := do
  let cls ← .ofExcept (checkJobject args[0]?)
  let methodName ← .ofExcept (checkString e args[1]?)
  let params ← .ofExcept (checkString e args[2]?)
  let ret ← .ofExcept (checkString e args[3]?)
  let sig := '(' :: params ++ ')' :: ret
  match ← memberId (api (.getMethodID false cls methodName sig)) (api (.getMethodID true cls methodName sig)) with
  | none => return [.nil]
  | some m => return [.jmethodId m]

/-- The entry of a variable. -/
def VariableEntry.table (v : VariableEntry) : CValue Ref :=
  recordTable [("name", .string v.name), ("sig", .string v.signature),
    ("start_location", .number (.ofInteger v.startLocation)), ("slot", .number (.ofInteger v.slot))]

/-- The texts of the entries are not given back. -/
def ljGetLocalVariableTable : NativeProg Ref (List (CValue Ref)) := do
  let method ← .ofExcept (checkMethodId args[0]?)
  match ← api (.getLocalVariableTable method) with
  | .error err =>
    if err = "JVMTI_ERROR_ABSENT_INFORMATION" ∨ err = "JVMTI_ERROR_NATIVE_METHOD" then return [.nil]
    checkJvmtiError (.error err)
  | .ok (vars, block) =>
    freeJvmtiRefs block.toList
    return [.table (vars.map fun v => (.string v.name, v.table))]

/-- After another error the loop reads variables that are not set. -/
def ljGetLineNumberTable : NativeProg Ref (List (CValue Ref)) := do
  let method ← .ofExcept (checkMethodId args[0]?)
  match ← api (.getLineNumberTable method) with
  | .error err =>
    if err = "JVMTI_ERROR_NATIVE_METHOD" ∨ err = "JVMTI_ERROR_ABSENT_INFORMATION" then return [.nil]
    let never ← api .undefined
    nomatch never
  | .ok (lines, block) =>
    freeJvmtiRefs block.toList
    return [arrayTable (lines.map fun l =>
      recordTable [("location", .number (.ofInteger l.1)), ("line_num", .number (.ofInteger l.2))])]

def ljGetMethodName : NativeProg Ref (List (CValue Ref)) := do
  let method ← .ofExcept (checkMethodId args[0]?)
  let ((methodName, nameBlock), (sig, sigBlock)) ← checkJvmtiError (← api (.getMethodNameAndSig method))
  freeJvmtiRefs [nameBlock, sigBlock]
  return [recordTable [("name", .string methodName), ("sig", .string sig)]]

def ljGetMethodDeclaringClass : NativeProg Ref (List (CValue Ref)) := do
  let method ← .ofExcept (checkMethodId args[0]?)
  let declaring ← checkJvmtiError (← api (.getMethodDeclaringClass method))
  return [.jobject declaring]

def ljGetMethodModifiers : NativeProg Ref (List (CValue Ref)) := do
  let method ← .ofExcept (checkMethodId args[0]?)
  let modifiers ← checkJvmtiError (← api (.getMethodModifiers method))
  return [.number (.ofInteger modifiers)]

def ljSetBreakpoint : NativeProg Ref (List (CValue Ref)) := do
  let method ← .ofExcept (checkMethodId args[0]?)
  let location ← .ofExcept (checkInteger e args[1]?)
  request (.setBreakpoint method location)

def ljClearBreakpoint : NativeProg Ref (List (CValue Ref)) := do
  let method ← .ofExcept (checkMethodId args[0]?)
  let location ← .ofExcept (checkInteger e args[1]?)
  request (.clearBreakpoint method location)

end Methods

/-! ## Calls -/

section Calls

variable (e : MarshalEnv)

/-- An integer member of a `jvalue`. -/
def integerArg (p : PrimType) (v : Option (CValue Ref)) : NativeProg Ref (JValue Ref) :=
  .ofExcept ((checkInteger e v).map fun n => .number p (.finite (narrow p n)))

/-- One argument: the tests of the tag, in the order of the source. -/
def readArg (argtype : LuaString) (v : Option (CValue Ref)) : NativeProg Ref (JValue Ref) :=
  if argtype = ['V'] then pure (.reference none)
  else if argtype.head? = some 'L' ∨ argtype.head? = some '[' then do
    let o ← .ofExcept (checkJobject v)
    return .reference (some o)
  else if argtype = "STR".toList then do
    let text ← .ofExcept (checkString e v)
    let string ← api (.newStringUTF text)
    return .reference string
  else if argtype = ['Z'] then do
    let b ← .ofExcept (checkBoolean v)
    return .boolean b
  else if argtype = ['B'] then integerArg e .B v
  else if argtype = ['C'] then integerArg e .C v
  else if argtype = ['S'] then integerArg e .S v
  else if argtype = ['I'] then integerArg e .I v
  else if argtype = ['J'] then integerArg e .J v
  else if argtype = ['F'] then do
    let n ← .ofExcept (checkNumber e v)
    return .number .F (e.toFloat n)
  else if argtype = ['D'] then do
    let n ← .ofExcept (checkNumber e v)
    return .number .D n
  else .raise (.message "Unknown argument type")

/-- The loop over `argcount` pairs. -/
def readArgs : ℕ → List (CValue Ref) → NativeProg Ref (List (JValue Ref))
  | 0, _ => pure []
  | argcount + 1, args => do
    let argtype ← .ofExcept (checkString e args[0]?)
    let arg ← readArg e argtype args[1]?
    let rest ← readArgs argcount (args.drop 2)
    return arg :: rest

/-- The JNI call for a return type; `none` for an unknown one. -/
def callFor (methodName : LuaString) (isStatic : Bool) (ret : LuaString) : Option JniCall :=
  if ret = ['V'] then some (.method isStatic .void)
  else if ret.head? = some 'L' ∨ ret.head? = some '[' ∨ ret = "STR".toList then
    if methodName = initName then some .newObject else some (.method isStatic .object)
  else (primOfTag ret).map fun p => .method isStatic (.prim p)

/-- What is pushed for the value of a call. -/
def pushValue (ret : LuaString) : JniValue Ref → NativeProg Ref (List (CValue Ref))
  | .void => pure []
  | .reference o => do
    if pushesString ret then return [← newString o]
    return [newJobject o]
  | v => pure [v.push]

def ljCallMethod (args : List (CValue Ref)) : NativeProg Ref (List (CValue Ref)) := do
  let object ← .ofExcept (checkJobject args[0]?)
  let methodId ← .ofExcept (checkMethodId args[1]?)
  let isStatic := toBoolean args[2]?
  let ret ← .ofExcept (checkString e args[3]?)
  let argcount ← .ofExcept (checkInteger e args[4]?)
  let (methodName, nameBlock) ← checkJvmtiError (← api (.getMethodName methodId))
  let jargs ← readArgs e (narrow .I argcount).toNat (args.drop 5)
  match callFor methodName isStatic ret with
  | none => .raise (.message "Unknown return type")
  | some call =>
    let val ← api (.callMethod call object methodId jargs)
    exceptionCheck
    let results ← pushValue ret val
    freeJvmtiRefs [nameBlock]
    return results

def ljToString (args : List (CValue Ref)) : NativeProg Ref (List (CValue Ref)) := do
  let object ← .ofExcept (checkJobject args[0]?)
  let cls ← api (.findClass "java/lang/Object".toList)
  exceptionCheck
  match cls with
  | none => return [.nil]
  | some cls =>
    let methodId ← api (.getMethodID false cls toStringName "()Ljava/lang/String;".toList)
    exceptionCheck
    match methodId with
    | none => return [.nil]
    | some methodId =>
      let val ← api (.callMethod (.method false .object) object methodId [])
      exceptionCheck
      match val with
      | .reference (some string) => return [← newString (some string)]
      | _ => return [.nil]

end Calls

/-! ## Arrays and references -/

section Arrays

variable (e : MarshalEnv) (args : List (CValue Ref))

def ljGetArrayLength : NativeProg Ref (List (CValue Ref)) := do
  let array ← .ofExcept (checkJobject args[0]?)
  let length ← api (.getArrayLength array)
  exceptionCheck
  return [.number (.ofInteger length)]

/-- The component type, by the second character of the class name. -/
def componentKind (className : LuaString) : Option RetKind :=
  match className[1]? with
  | some 'L' => some .object
  | some '[' => some .object
  | some c => (primOfTag [c]).map .prim
  | none => none

/-- `assert(*class_name == '[')`. -/
def assertArray (className : LuaString) : NativeProg Ref Unit := do
  if className.head? ≠ some '[' then
    let never ← api .abort
    nomatch never

def ljGetArrayElement : NativeProg Ref (List (CValue Ref)) := do
  let array ← .ofExcept (checkJobject args[0]?)
  let className ← .ofExcept (checkString e args[1]?)
  let index ← .ofExcept (checkInteger e args[2]?)
  assertArray className
  match componentKind className with
  | some kind =>
    let val ← api (.getArrayElement kind array (narrow .I (index - 1)))
    exceptionCheck
    return [val.push]
  | none => .raise (.message "Unknown array class")

/-- The element that is set. -/
def readElement (v : Option (CValue Ref)) : RetKind → NativeProg Ref (JValue Ref)
  | .prim .Z => do
    let b ← .ofExcept (checkBoolean v)
    return .boolean b
  | .prim .F => do
    let n ← .ofExcept (checkNumber e v)
    return .number .F (e.toFloat n)
  | .prim .D => do
    let n ← .ofExcept (checkNumber e v)
    return .number .D n
  | .prim p => integerArg e p v
  | _ =>
    match v with
    | some .nil => pure (.reference none)
    | v => do
      let o ← .ofExcept (checkJobject v)
      return .reference (some o)

def ljSetArrayElement : NativeProg Ref (List (CValue Ref)) := do
  let array ← .ofExcept (checkJobject args[0]?)
  let className ← .ofExcept (checkString e args[1]?)
  let index ← .ofExcept (checkInteger e args[2]?)
  assertArray className
  match componentKind className with
  | some kind =>
    let val ← readElement e args[3]? kind
    api (.setArrayElement array (narrow .I (index - 1)) val)
    exceptionCheck
    return []
  | none => return []

def ljNewGlobalRef : NativeProg Ref (List (CValue Ref)) := do
  let object ← .ofExcept (checkJobject args[0]?)
  let globalRef ← api (.newGlobalRef object)
  exceptionCheck
  return [newJobject globalRef]

def ljDeleteGlobalRef : NativeProg Ref (List (CValue Ref)) := do
  let object ← .ofExcept (checkJobject args[0]?)
  api (.deleteGlobalRef object)
  exceptionCheck
  return []

end Arrays

/-! ## Threads and frames -/

section Threads

variable (e : MarshalEnv) (currentThread : Option Ref) (args : List (CValue Ref))

def ljGetCurrentThread : NativeProg Ref (List (CValue Ref)) := do
  let thread ← getCurrentJavaThread currentThread
  return [.jobject thread]

def ljGetAllThreads : NativeProg Ref (List (CValue Ref)) := do
  let (threads, block) ← checkJvmtiError (← api .getAllThreads)
  freeJvmtiRefs block.toList
  return [arrayTable (threads.map .jobject)]

def ljGetFrameCount : NativeProg Ref (List (CValue Ref)) := do
  let thread ← .ofExcept (checkJobject args[0]?)
  let count ← checkJvmtiError (← api (.getFrameCount thread))
  return [.number (.ofInteger count)]

/-- Whatever the error, `count` is still 0. -/
def ljGetStackFrame : NativeProg Ref (List (CValue Ref)) := do
  let thread ← .ofExcept (checkJobject args[0]?)
  let frameNum ← .ofExcept (checkInteger e args[1]?)
  match ← api (.getStackTrace thread (narrow .I (narrow .I frameNum - 1))) with
  | .ok (some (location, method)) =>
    return [recordTable [("location", .number (.ofInteger location)), ("method_id_raw", .jmethodId method),
      ("depth", .number (.ofInteger (narrow .I frameNum)))]]
  | _ => return [.nil]

def localVariableIsNil (err : String) : Bool :=
  err = "JVMTI_ERROR_INVALID_SLOT" || err = "JVMTI_ERROR_TYPE_MISMATCH" || err = "JVMTI_ERROR_NULL_POINTER"

/-- The JVMTI function for a type. -/
def localKind (type : LuaString) : Option RetKind :=
  if type = ['Z'] ∨ type = ['B'] ∨ type = ['C'] ∨ type = ['S'] ∨ type = ['I'] then some (.prim .I)
  else if type = ['J'] then some (.prim .J)
  else if type = ['F'] then some (.prim .F)
  else if type = ['D'] then some (.prim .D)
  else if type.head? = some 'L' ∨ type.head? = some '[' then some .object
  else none

/-- What is pushed for a variable. -/
def pushLocal (type : LuaString) (val : JniValue Ref) : CValue Ref :=
  match val with
  | .integer n => if type = ['Z'] then .boolean (n ≠ 0) else val.push
  | _ => val.push

def ljGetLocalVariable : NativeProg Ref (List (CValue Ref)) := do
  let depth ← .ofExcept (checkInteger e args[0]?)
  let slot ← .ofExcept (checkInteger e args[1]?)
  let type ← .ofExcept (checkString e args[2]?)
  match localKind type with
  | none => return [.nil]
  | some kind =>
    let thread ← getCurrentJavaThread currentThread
    match ← api (.getLocal kind thread (narrow .I (narrow .I depth - 1)) (narrow .I slot)) with
    | .error err =>
      if localVariableIsNil err then return [.nil]
      checkJvmtiError (.error err)
    | .ok val => return [pushLocal type val]

def ljForceEarlyReturnObject : NativeProg Ref (List (CValue Ref)) := do
  let thread ← .ofExcept (checkJobject args[0]?)
  match (args[1]? : Option (CValue Ref)) with
  | some .nil => request (.forceEarlyReturnObject thread none)
  | v =>
    let retVal ← .ofExcept (checkJobject v)
    request (.forceEarlyReturnObject thread (some retVal))

def ljForceEarlyReturnInt : NativeProg Ref (List (CValue Ref)) := do
  let thread ← .ofExcept (checkJobject args[0]?)
  match (args[1]? : Option (CValue Ref)) with
  | some (.boolean b) => request (.forceEarlyReturnInt thread b.toNat)
  | v =>
    let retval ← .ofExcept (checkInteger e v)
    request (.forceEarlyReturnInt thread (narrow .I retval))

def ljForceEarlyReturnVoid : NativeProg Ref (List (CValue Ref)) := do
  let thread ← .ofExcept (checkJobject args[0]?)
  request (.forceEarlyReturnVoid thread)

/-- `lj_force_early_return_long`, `_float` and `_double`: `assert(0)`. -/
def ljForceEarlyReturnTodo : NativeProg Ref (List (CValue Ref)) := do
  let never ← api .abort
  nomatch never

end Threads

/-! ## Raw monitors -/

section Monitors

variable (e : MarshalEnv) (args : List (CValue Ref))

def ljCreateRawMonitor : NativeProg Ref (List (CValue Ref)) := do
  let name ← .ofExcept (checkString e args[0]?)
  let monitor ← checkJvmtiError (← api (.createRawMonitor name))
  return [.jmonitor monitor]

/-- A function that makes one request for a monitor. -/
def monitorRequest (r : Ref → Request Ref) : NativeProg Ref (List (CValue Ref)) := do
  let monitor ← .ofExcept (checkMonitor args[0]?)
  request (r monitor)

def ljDestroyRawMonitor : NativeProg Ref (List (CValue Ref)) := monitorRequest args .destroyRawMonitor

def ljRawMonitorEnter : NativeProg Ref (List (CValue Ref)) := monitorRequest args .rawMonitorEnter

def ljRawMonitorExit : NativeProg Ref (List (CValue Ref)) := monitorRequest args .rawMonitorExit

def ljRawMonitorWait : NativeProg Ref (List (CValue Ref)) := do
  let monitor ← .ofExcept (checkMonitor args[0]?)
  let wait ← .ofExcept (checkInteger e args[1]?)
  request (.rawMonitorWait monitor wait)

def ljRawMonitorNotify : NativeProg Ref (List (CValue Ref)) := monitorRequest args .rawMonitorNotify

def ljRawMonitorNotifyAll : NativeProg Ref (List (CValue Ref)) := monitorRequest args .rawMonitorNotifyAll

end Monitors

/-! ## Callbacks -/

section Callbacks

variable (e : MarshalEnv) (currentThread : Option Ref) (args : List (CValue Ref))

/-- EV_ENABLET or EV_DISABLET for the event that a callback has, if it has one. -/
def eventChange (on : Bool) (callback : LuaString) : NativeProg Ref (Except String Unit) :=
  match (slotOf callback).bind Slot.notification with
  | some event => do
    let thread ← getCurrentJavaThread currentThread
    api (.request (.setEventNotificationMode on event thread))
  | none => pure (.ok ())

def ljSetJvmtiCallback : NativeProg Ref (List (CValue Ref)) := do
  let callback ← .ofExcept (checkString e args[0]?)
  .ofExcept (checkFunction args[1]?)
  checkJvmtiError (← eventChange currentThread true callback)
  match slotOf callback with
  | none => .raise (.message ("Unknown or unmapped callback '" ++ String.ofList callback ++ "'\n"))
  | some _ => request .setEventCallbacks

/-- The error of EV_DISABLET is not looked at. -/
def ljClearJvmtiCallback : NativeProg Ref (List (CValue Ref)) := do
  let callback ← .ofExcept (checkString e args[0]?)
  let _ ← eventChange currentThread false callback
  match slotOf callback with
  | none =>
    -- *jvmti_callback_ptr = NULL, where jvmti_callback_ptr is NULL itself
    let never ← api .undefined
    nomatch never
  | some _ => request .setEventCallbacks

end Callbacks

/-! ## Sessions -/

section Sessions

variable (e : MarshalEnv)

/-- A registered function, on the value of `lj_current_thread` and its arguments. -/
abbrev NativeFunction (Ref : Type) : Type := Option Ref → List (CValue Ref) → NativeProg Ref (List (CValue Ref))

/-- The functions that `lj_init` registers, except the two that make a table of modifiers and `lj_pointer_to_string`,
which call neither JNI nor JVMTI. -/
def nativeFunctions : List (String × NativeFunction Ref) := [
  ("lj_find_class", fun _ => ljFindClass e),
  ("lj_get_class_fields", fun _ => ljGetClassFields),
  ("lj_get_class_methods", fun _ => ljGetClassMethods),
  ("lj_get_source_filename", fun _ => ljGetSourceFilename),
  ("lj_get_loaded_classes", fun _ _ => ljGetLoadedClasses),
  ("lj_get_class_instances", fun _ => ljGetClassInstances),
  ("lj_get_field_id", fun _ => ljGetFieldId e),
  ("lj_get_field_name", fun _ => ljGetFieldName),
  ("lj_get_field_declaring_class", fun _ => ljGetFieldDeclaringClass),
  ("lj_get_field_modifiers", fun _ => ljGetFieldModifiers),
  ("lj_force_early_return_object", fun _ => ljForceEarlyReturnObject),
  ("lj_force_early_return_int", fun _ => ljForceEarlyReturnInt e),
  ("lj_force_early_return_long", fun _ _ => ljForceEarlyReturnTodo),
  ("lj_force_early_return_float", fun _ _ => ljForceEarlyReturnTodo),
  ("lj_force_early_return_double", fun _ _ => ljForceEarlyReturnTodo),
  ("lj_force_early_return_void", fun _ => ljForceEarlyReturnVoid),
  ("lj_get_method_id", fun _ => ljGetMethodId e),
  ("lj_get_local_variable_table", fun _ => ljGetLocalVariableTable),
  ("lj_get_line_number_table", fun _ => ljGetLineNumberTable),
  ("lj_get_method_name", fun _ => ljGetMethodName),
  ("lj_get_method_declaring_class", fun _ => ljGetMethodDeclaringClass),
  ("lj_get_method_modifiers", fun _ => ljGetMethodModifiers),
  ("lj_create_raw_monitor", fun _ => ljCreateRawMonitor e),
  ("lj_destroy_raw_monitor", fun _ => ljDestroyRawMonitor),
  ("lj_raw_monitor_enter", fun _ => ljRawMonitorEnter),
  ("lj_raw_monitor_exit", fun _ => ljRawMonitorExit),
  ("lj_raw_monitor_wait", fun _ => ljRawMonitorWait e),
  ("lj_raw_monitor_notify", fun _ => ljRawMonitorNotify),
  ("lj_raw_monitor_notify_all", fun _ => ljRawMonitorNotifyAll),
  ("lj_get_frame_count", fun _ => ljGetFrameCount),
  ("lj_get_stack_frame", fun _ => ljGetStackFrame e),
  ("lj_set_field_access_watch", fun _ => ljSetFieldAccessWatch),
  ("lj_set_field_modification_watch", fun _ => ljSetFieldModificationWatch),
  ("lj_set_breakpoint", fun _ => ljSetBreakpoint e),
  ("lj_clear_breakpoint", fun _ => ljClearBreakpoint e),
  ("lj_get_local_variable", ljGetLocalVariable e),
  ("lj_call_method", fun _ => ljCallMethod e),
  ("lj_toString", fun _ => ljToString),
  ("lj_get_field", fun _ => ljGetField),
  ("lj_get_current_thread", fun thread _ => ljGetCurrentThread thread),
  ("lj_get_all_threads", fun _ _ => ljGetAllThreads),
  ("lj_get_array_length", fun _ => ljGetArrayLength),
  ("lj_get_array_element", fun _ => ljGetArrayElement e),
  ("lj_set_array_element", fun _ => ljSetArrayElement e),
  ("lj_new_global_ref", fun _ => ljNewGlobalRef),
  ("lj_delete_global_ref", fun _ => ljDeleteGlobalRef),
  ("lj_set_jvmti_callback", ljSetJvmtiCallback e),
  ("lj_clear_jvmti_callback", ljClearJvmtiCallback e)]

/-- A call that Lua makes. -/
structure NativeCall (Ref : Type) where
  function : String
  currentThread : Option Ref
  args : List (CValue Ref)

def NativeCall.run (c : NativeCall Ref) : NativeProg Ref (List (CValue Ref)) :=
  match (nativeFunctions e).lookup c.function with
  | some f => f c.currentThread c.args
  | none => .raise (.message "attempt to call a nil value")

/-- Calls that Lua makes one after the other on a thread, whatever they end with. -/
def session : List (NativeCall Ref) → NativeProg Ref (List (Except LuaError (List (CValue Ref))))
  | [] => pure []
  | c :: cs => do
    let r ← Prog.attempt (c.run e)
    let rs ← session cs
    return r :: rs

end Sessions

end Native

end YellowTree
