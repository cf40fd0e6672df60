import Mathlib.Data.List.DropRight
import YellowTree.Bridge.Descriptor

/-!
# YellowTree.Bridge.MethodId — classes, methods and `jmethod_id`

`Jvm` is what the bridge asks the JVM about classes and methods; its hierarchy is arbitrary, and two classes may have
the same name (two class loaders).  A `JmethodId` pairs a raw method id with the class it was reached through:
`jmethod_id.find` and `jclass:find_methods` use the class the user named, `jmethod_id.from_raw_method_id` the class
that declares the method.  `JmethodId.eq` is the `__eq` metamethod.
-/

namespace YellowTree

/-! ## The JVM -/

section Jvm

/-- An entry of a line number table. -/
structure LineEntry where
  location : ℕ
  lineNum : ℕ
  deriving DecidableEq

/-- What JVMTI reports about a method.  `ret` is `none` for void; `lineTable` is `none` for a native method and for
one compiled without line numbers. -/
structure MethodInfo where
  name : LuaString
  params : List FieldType
  ret : Option FieldType
  isStatic : Bool
  lineTable : Option (List LineEntry)
  deriving DecidableEq

def retText : Option FieldType → LuaString
  | none => ['V']
  | some t => t.descriptor

/-- The method descriptor, `(args)ret`. -/
def MethodInfo.sig (m : MethodInfo) : LuaString :=
  '(' :: (m.params.flatMap FieldType.descriptor ++ ')' :: retText m.ret)

/-- A descriptor has no dots. -/
theorem MethodInfo.dot_notMem_sig (m : MethodInfo) : '.' ∉ m.sig := by
  have hparams : '.' ∉ m.params.flatMap FieldType.descriptor := by
    intro h
    obtain ⟨t, -, ht⟩ := List.mem_flatMap.mp h
    exact t.dot_notMem_descriptor ht
  have hret : '.' ∉ retText m.ret := by
    cases m.ret with
    | none => decide
    | some t => exact t.dot_notMem_descriptor
  unfold MethodInfo.sig
  simp [hparams, hret]

/-- The JVM as the bridge sees it.  `className` is `Class.getName()`, `findClass` is `jclass.find`; `getMethodID` and
`getStaticMethodID` take a class, a name and a descriptor. -/
structure Jvm (Class Method : Type) where
  className : Class → LuaString
  declaringClass : Method → Class
  info : Method → MethodInfo
  findClass : LuaString → Option Class
  getMethodID : Class → LuaString → LuaString → Option Method
  getStaticMethodID : Class → LuaString → LuaString → Option Method

/-- A class `Main` with one method, of two lines: 10 at location 0, 11 at location 5. -/
def mainJvm : Jvm Unit Unit where
  className := fun _ => "Main".toList
  declaringClass := fun _ => ()
  info := fun _ => ⟨"run".toList, [], none, true, some [⟨0, 10⟩, ⟨5, 11⟩]⟩
  findClass := fun _ => some ()
  getMethodID := fun _ _ _ => some ()
  getStaticMethodID := fun _ _ _ => none

end Jvm

/-! ## Method descriptors cut by Lua patterns -/

section Patterns

/-- `string.match(s, "^.*%c")`: the longest prefix that ends in `c`. -/
def matchUpTo (c : Char) (s : LuaString) : Option LuaString :=
  let p := s.rdropWhile (· != c)
  if p = [] then none else some p

/-- The prefix found ends at the last `c`. -/
theorem matchUpTo_append {c : Char} (p : LuaString) {r : LuaString} (hr : c ∉ r) :
    matchUpTo c (p ++ c :: r) = some (p ++ [c]) := by
  have hall : ∀ d ∈ r.reverse, (d != c) = true := by
    intro d hd
    simpa using fun h : d = c => hr (h ▸ List.mem_reverse.mp hd)
  have h : (p ++ c :: r).rdropWhile (· != c) = p ++ [c] := by
    rw [List.rdropWhile, List.reverse_append, List.reverse_cons, List.append_assoc,
      List.dropWhile_append_of_pos hall]
    simp
  simp [matchUpTo, h]

/-- The last occurrence of a character splits a text. -/
theorem exists_last_split {c : Char} {s : LuaString} (h : c ∈ s) : ∃ u v, s = u ++ c :: v ∧ c ∉ v := by
  obtain ⟨u, v, hs, hv⟩ := List.eq_append_cons_of_mem (List.mem_reverse.mpr h)
  refine ⟨v.reverse, u.reverse, ?_, by simpa using hv⟩
  rw [← List.reverse_reverse s, hs]
  simp

/-- `jmethod_id.create`: `args` is the text after the first character and before the last `)`. -/
def argsOfSig (sig : LuaString) : LuaString := ((matchUpTo ')' (sig.drop 1)).map List.dropLast).getD []

def MethodInfo.args (m : MethodInfo) : LuaString := argsOfSig m.sig

theorem MethodInfo.args_eq_last {m : MethodInfo} {u v : LuaString} (hv : ')' ∉ v)
    (h : ')' :: retText m.ret = u ++ ')' :: v) : m.args = m.params.flatMap FieldType.descriptor ++ u := by
  have hsig : m.sig.drop 1 = (m.params.flatMap FieldType.descriptor ++ u) ++ ')' :: v := by
    rw [MethodInfo.sig, List.drop_one, List.tail_cons, h, List.append_assoc]
  rw [MethodInfo.args, argsOfSig, hsig, matchUpTo_append _ hv, Option.map_some, List.dropLast_concat]
  rfl

/-- Without a parenthesis in the return type, `args` is the text of the parameters. -/
theorem MethodInfo.args_eq {m : MethodInfo} (h : ')' ∉ retText m.ret) :
    m.args = m.params.flatMap FieldType.descriptor := by
  simpa using m.args_eq_last (u := []) h rfl

/-- With a parenthesis in the return type, `args` runs into the return type and `parse_arg_spec` fails. -/
theorem MethodInfo.parse_args_eq_none {m : MethodInfo} (h : ')' ∈ retText m.ret) : parseArgSpec m.args = none := by
  cases hret : m.ret with
  | none => simp [hret, retText] at h
  | some t =>
    rw [hret, retText] at h
    obtain ⟨k, ⟨p, hd⟩ | ⟨n, hd⟩⟩ := t.descriptor_cases
    · rw [hd] at h
      have hp : p.char ≠ ')' := by cases p <;> decide
      simp [hp.symm] at h
    · have hn : ')' ∈ n.text := by simpa [hd] using h
      obtain ⟨u, v, huv, hv⟩ := exists_last_split hn
      have hargs := m.args_eq_last (u := ')' :: (List.replicate k '[' ++ 'L' :: u)) (v := v ++ [';'])
        (by simp [hv]) (by simp [hret, retText, hd, huv])
      have hu : ';' ∉ u := fun hmem => n.semi_notMem (by rw [huv]; simp [hmem])
      have hround : parseArgSpec (')' :: (List.replicate k '[' ++ 'L' :: u)) = none := by
        rw [parseArgSpec_round (List.cons_ne_nil _ _)]
        simp [parseArgSpec_unclosed hu k]
      rw [hargs]
      induction m.params with
      | nil => exact hround
      | cons t' ts ih => rw [List.flatMap_cons, List.append_assoc, parseArgSpec_descriptor_append, ih]; rfl

/-- Without one, `parse_arg_spec` gives the pieces of the parameters. -/
theorem MethodInfo.parse_args {m : MethodInfo} (h : ')' ∉ retText m.ret) :
    parseArgSpec m.args = some (m.params.flatMap FieldType.pieces) := by
  rw [m.args_eq h, parseArgSpec_params]

end Patterns

/-! ## `jmethod_id` -/

section JmethodId

variable {Class Method : Type}

/-- A `jmethod_id`.  `jmethod_id.create` also stores the name, the descriptor and its parts, the line number table
and the modifiers, all of them read from the raw method id: here they are read from `Jvm.info`. -/
structure JmethodId (Class Method : Type) where
  methodIdRaw : Method
  cls : Class
  deriving DecidableEq

namespace JmethodId

variable (jvm : Jvm Class Method)

def info (m : JmethodId Class Method) : MethodInfo := jvm.info m.methodIdRaw

/-- `jmethod_id.__eq`; `jclass.__eq` compares the names of the classes. -/
def eq (m1 m2 : JmethodId Class Method) : Bool :=
  (m1.info jvm).name == (m2.info jvm).name && (m1.info jvm).sig == (m2.info jvm).sig &&
    jvm.className m1.cls == jvm.className m2.cls

/-- What `__eq` compares. -/
def key (m : JmethodId Class Method) : LuaString × LuaString × LuaString :=
  ((m.info jvm).name, (m.info jvm).sig, jvm.className m.cls)

theorem eq_iff {m1 m2 : JmethodId Class Method} : m1.eq jvm m2 = true ↔ m1.key jvm = m2.key jvm := by
  simp [eq, key, and_assoc]

/-- `jmethod_id.from_raw_method_id`. -/
def fromRaw (raw : Method) : JmethodId Class Method := ⟨raw, jvm.declaringClass raw⟩

end JmethodId

/-- `lj_get_method_id`: the descriptor is rebuilt from its two parts; an instance method is tried first. -/
def ljGetMethodId (jvm : Jvm Class Method) (c : Class) (name args ret : LuaString) : Option Method :=
  let sig := '(' :: (args ++ ')' :: ret)
  (jvm.getMethodID c name sig) <|> (jvm.getStaticMethodID c name sig)

/-- The parts of `java/io/PrintStream.println(Ljava/lang/String;)V`. -/
structure MethodSig where
  className : LuaString
  methodName : LuaString
  args : LuaString
  ret : LuaString
  deriving DecidableEq

/-- `jmethod_id.parse_complete_method_signature`; `none` when a pattern does not match (`string.len(nil)`). -/
def parseCompleteMethodSignature (s : LuaString) : Option MethodSig := do
  let className ← matchUpTo '.' s
  let s := s.drop className.length
  let methodName ← matchUpTo '(' s
  let s := s.drop methodName.length
  let args ← matchUpTo ')' s
  some ⟨className.dropLast, methodName.dropLast, args.dropLast, s.drop args.length⟩

/-- Each match ends at its last delimiter. -/
theorem parseCompleteMethodSignature_append {c m a r : LuaString}
    (hdot : '.' ∉ m ++ '(' :: (a ++ ')' :: r)) (hopen : '(' ∉ a ++ ')' :: r) (hclose : ')' ∉ r) :
    parseCompleteMethodSignature (c ++ '.' :: (m ++ '(' :: (a ++ ')' :: r))) = some ⟨c, m, a, r⟩ := by
  have hdrop : ∀ (d : Char) (u v : LuaString), (u ++ d :: v).drop (u ++ [d]).length = v := by
    intro d u v
    have hsplit : u ++ d :: v = (u ++ [d]) ++ v := by simp
    rw [hsplit, List.drop_left]
  rw [parseCompleteMethodSignature, matchUpTo_append _ hdot]
  simp only [Option.bind_eq_bind, Option.bind_some, hdrop, matchUpTo_append _ hopen, matchUpTo_append _ hclose,
    List.dropLast_concat]

/-- `jmethod_id.find`: the method id keeps the class the user named. -/
def JmethodId.find (jvm : Jvm Class Method) (completeMethodSig : LuaString) :
    Except LuaError (Option (JmethodId Class Method)) :=
  match parseCompleteMethodSignature completeMethodSig with
  | none => .error (.message "bad argument #1 to 'len' (string expected, got nil)")
  | some sig =>
    match jvm.findClass sig.className with
    | none => .ok none
    | some c => .ok ((ljGetMethodId jvm c sig.methodName sig.args sig.ret).map fun raw => ⟨raw, c⟩)

end JmethodId

end YellowTree
