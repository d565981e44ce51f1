import Mathlib
import ProtoST.Lib.Trail
import ProtoST.Frontend.Compiler

/-!
# The class tables of the compiler

Before it emits a module the compiler collects what is known of every class by its name:
the classes compiled earlier in the process, the classes of the REPL session, and the
module's own, which win on a name clash.  The module's own classes are published for the
modules compiled after it before anything is emitted, also when there are errors.

The tables are hash maps: nothing here depends on the order of their entries but the order
in which errors are reported.

## Main results

* `superLoop_eq`, `mem_superclasses` — the loop over the superclasses of a class ends and
  comes to its ancestors.
* `lookup_collected`, `lookup_publish` — what the table of a module and the registry behind
  it have of a name.
* `mem_redefinitions` — the conflicts that are reported.
-/

namespace ProtoST.Frontend

open ProtoST.Lib ProtoST.Runtime.Bytecode

/-! ## The table -/

/-- `Compiler::ClassInfo`. -/
structure ClassInfo where
  name : String
  superclassName : String
  instVarNames : List String
  classVarNames : List String
  classInstVarNames : List String
  mixinNames : List String
  deriving DecidableEq, Repr

def ClassInfo.extend (info : ClassInfo) (names : List String) : ClassInfo :=
  { info with classInstVarNames := info.classInstVarNames ++ names }

/-- `classes_` and the registry of the process. -/
abbrev ClassMap := AList fun _ : String => ClassInfo

/-- A class with its name in the table. -/
abbrev Entry := String × ClassInfo

namespace ClassMap

variable (classes : ClassMap)

/-- `find` of a name that is not empty. -/
def entry (name : String) : Option Entry :=
  if name = "" then none else (classes.lookup name).map (name, ·)

/-- The loop over a class and its superclasses: `cur` is left for its superclass until it
is empty, unknown or one that was seen. -/
def superLoop (rounds : Nat) (cur : String) : Option (List Entry) :=
  Follow.trail classes.entry (fun e => e.2.superclassName) rounds [] cur

/-- What the loop visits. -/
def superclasses (cur : String) : List Entry :=
  (classes.superLoop (classes.keys.length + 1) cur).getD []

/-- A class is on the superclass chain of a name. -/
def Ancestor (cur : String) (e : Entry) : Prop :=
  ∃ name, Follow.Leads (Follow.pointer classes.entry fun e => e.2.superclassName) cur name ∧
    classes.entry name = some e

variable {classes} {cur : String} {e : Entry}

theorem entry_eq_some {name : String} :
    classes.entry name = some e ↔ name ≠ "" ∧ e.1 = name ∧ classes.lookup name = some e.2 := by
  obtain ⟨key, info⟩ := e
  unfold entry
  by_cases hname : name = ""
  · simp [hname]
  · rw [if_neg hname, Option.map_eq_some_iff]
    constructor
    · rintro ⟨info, hlookup, heq⟩
      cases heq
      exact ⟨hname, rfl, hlookup⟩
    · rintro ⟨-, rfl, hlookup⟩
      exact ⟨info, hlookup, rfl⟩

/-- The loop ends: it has no more rounds than the table has classes, and one. -/
theorem superLoop_eq {rounds : Nat} (hrounds : classes.keys.length < rounds) (cur : String) :
    ∃ es, classes.superLoop rounds cur = some es := by
  refine Follow.exists_trail classes.keys.toFinset (fun a ha => ?_) ?_ cur
  · obtain ⟨e, he⟩ := Option.isSome_iff_exists.mp ha
    obtain ⟨-, -, hlookup⟩ := entry_eq_some.mp he
    rw [List.mem_toFinset]
    exact AList.mem_keys.mp (AList.lookup_isSome.mp (Option.isSome_of_eq_some hlookup))
  · exact (List.toFinset_card_le _).trans_lt hrounds

/-- The loop comes to the ancestors of its start. -/
theorem mem_superclasses : e ∈ classes.superclasses cur ↔ classes.Ancestor cur e := by
  obtain ⟨es, hes⟩ : ∃ es, classes.superLoop (classes.keys.length + 1) cur = some es :=
    superLoop_eq (Nat.lt_succ_self _) cur
  rw [superclasses, hes]
  exact Follow.mem_trail hes

end ClassMap

/-! ## The classes of a module -/

/-- The errors of `collectClasses`. -/
inductive ClassError where
  | declaredTwice (iv name : String)
  | alreadyDefined (iv name sup : String)
  deriving DecidableEq, Repr

/-- The classes an identifier or a symbol of a mixin list names. -/
def Node.mixinName : Node → Option String
  | .identifier name => some name
  | .literal (.symbol name) => some name
  | _ => none

/-- The mixins that can be read off a `uses:` clause. -/
def mixinNamesOf : Option Node → List String
  | some (.arrayLit elements) => elements.filterMap Node.mixinName
  | _ => []

/-- What a declaration says of its class. -/
def ClassDecl.info (d : ClassDecl) : ClassInfo :=
  ⟨d.name, d.superName, d.instVars, d.classVars, [], mixinNamesOf d.mixins⟩

/-- The names met a second time. -/
def repeated (seen : List String) : List String → List String
  | [] => []
  | iv :: rest => (if iv ∈ seen then [iv] else []) ++ repeated (seen ++ [iv]) rest

def ClassDecl.errors (d : ClassDecl) : List ClassError :=
  (repeated [] d.instVars).map fun iv => .declaredTwice iv d.name

/-- `std::isspace` in the C locale. -/
def isSpace (c : Char) : Bool :=
  c == ' ' || (9 ≤ c.toNat && c.toNat ≤ 13)

/-- One character of the loop that cuts a text into words. -/
def wordStep (acc : List String × List Char) (c : Char) : List String × List Char :=
  if isSpace c then
    (if acc.2.isEmpty then acc.1 else acc.1 ++ [String.ofList acc.2], [])
  else (acc.1, acc.2 ++ [c])

/-- The words of a text. -/
def words (text : String) : List String :=
  ((text.toList ++ [' ']).foldl wordStep ([], [])).1

namespace Top

def decl : Top → Option ClassDecl
  | .classDecl d => some d
  | _ => none

/-- `Name class instanceVariableNames: '…'`: the class and the names. -/
def classInstVars : Top → Option (String × List String)
  | .statement (.keywordSend (.unarySend (.identifier name) sel) [(k, .literal (.string text))]) =>
      if sel.text = "class" ∧ k.text = "instanceVariableNames" then some (name, words text)
      else none
  | _ => none

/-- The class a method is added to. -/
def target : Top → Option String
  | .methodDecl d => some d.className
  | .callMethodDecl d => some d.className
  | _ => none

end Top

/-- The names of the classes a module declares. -/
def declared (tops : List Top) : List String := (tops.filterMap Top.decl).map ClassDecl.name

/-- The classes a module adds methods to. -/
def targets (tops : List Top) : List String := tops.filterMap Top.target

namespace ClassMap

/-- Add class-instance variables to a class of the table. -/
def addClassInstVars (classes : ClassMap) (v : String × List String) : ClassMap :=
  match classes.lookup v.1 with
  | some info => classes.insert v.1 (info.extend v.2)
  | none => classes

/-- `classes_` of a module: `collectClasses` up to its check. -/
def collected (registry known : ClassMap) (tops : List Top) : ClassMap :=
  (tops.filterMap Top.classInstVars).foldl addClassInstVars
    ((tops.filterMap Top.decl).foldl (fun classes d => classes.insert d.name d.info)
      (known ∪ registry))

variable (classes : ClassMap)

/-- The instance variables of a class that one of its superclasses declares too. -/
def redefinedBy (name : String) (info : ClassInfo) : List ClassError :=
  (classes.superclasses info.superclassName).flatMap fun sup =>
    (info.instVarNames.filter fun iv => sup.2.instVarNames.contains iv).map fun iv =>
      .alreadyDefined iv name sup.1

/-- The check of `collectClasses`, over every class of the table. -/
def redefinitions : List ClassError :=
  classes.entries.flatMap fun c => classes.redefinedBy c.1 c.2

/-- `publishToSharedClassRegistry`. -/
def publish (registry : ClassMap) (tops : List Top) : ClassMap :=
  (declared tops).foldl
    (fun registry name =>
      match classes.lookup name with
      | some info => registry.insert name info
      | none => registry)
    registry

/-- A variable of a class is declared by a superclass too. -/
def Conflict (name iv sup : String) : Prop :=
  ∃ info supInfo, classes.lookup name = some info ∧
    classes.Ancestor info.superclassName (sup, supInfo) ∧
    iv ∈ info.instVarNames ∧ iv ∈ supInfo.instVarNames

end ClassMap

/-- The errors of `collectClasses`. -/
def classErrors (classes : ClassMap) (tops : List Top) : List ClassError :=
  (tops.filterMap Top.decl).flatMap ClassDecl.errors ++ classes.redefinitions

/-! ## The kernel -/

/-- A declaration without class variables and mixins. -/
def kernelDecl (superName name : String) (instVars : List String) : ClassDecl :=
  ⟨name, superName, instVars, [], none⟩

/-- The classes that the files of the kernel declare, in the order of its manifest. -/
def kernelDecls : List ClassDecl :=
  [kernelDecl "Number" "Fraction" ["numerator", "denominator"],
    kernelDecl "OrderedCollection" "SortedCollection" ["sortBlock"],
    kernelDecl "Interval" "NumericInterval" ["start", "stop", "step"],
    kernelDecl "Object" "ExceptionSet" ["exceptionClasses"],
    kernelDecl "Error" "ModificationForbidden" [],
    kernelDecl "Error" "SubscriptOutOfBounds" [],
    kernelDecl "Error" "KeyNotFound" [],
    kernelDecl "Error" "NotFound" [],
    kernelDecl "Error" "InvalidArgument" [],
    kernelDecl "Exception" "Notification" ["notificationText"],
    kernelDecl "Object" "WriteStream" ["buffer", "onString"],
    kernelDecl "Object" "ReadStream" ["collection", "position"],
    kernelDecl "Object" "Point" ["x", "y"],
    kernelDecl "Object" "TranscriptStream" [],
    kernelDecl "Object" "SmalltalkImage" [],
    kernelDecl "Object" "Duration" ["milliseconds"],
    kernelDecl "Object" "Time" ["hours", "minutes", "seconds"],
    kernelDecl "Object" "Date" ["year", "month", "day", "weekday"],
    kernelDecl "Object" "Random" ["seed"],
    kernelDecl "Error" "FileSystemError" [],
    kernelDecl "FileSystemError" "FileDoesNotExist" [],
    kernelDecl "FileSystemError" "FileAlreadyExists" [],
    kernelDecl "Error" "NetworkError" [],
    kernelDecl "NetworkError" "ConnectionRefused" [],
    kernelDecl "NetworkError" "ConnectionTimedOut" [],
    kernelDecl "NetworkError" "NameLookupFailure" [],
    kernelDecl "NetworkError" "BodyTooLarge" [],
    kernelDecl "Error" "LineTooLong" [],
    kernelDecl "Error" "OSProcessError" [],
    kernelDecl "Object" "IOStream" ["fd", "closed"],
    kernelDecl "Object" "Stdio" [],
    kernelDecl "Object" "FileReference" ["path"],
    kernelDecl "Object" "File" [],
    kernelDecl "Object" "FileSystem" [],
    kernelDecl "Object" "OSProcessResult" ["exitCode", "output", "errorOutput"],
    kernelDecl "Object" "OSProcess" []]

/-- The registry behind the kernel. -/
def kernelClasses : ClassMap := ClassMap.collected ∅ ∅ (kernelDecls.map .classDecl)

/-! ## Lookups -/

namespace ClassMap

variable {classes registry known : ClassMap} {tops : List Top}

/-- The class-instance variables that are added to a class, in order. -/
def addedVars (vs : List (String × List String)) (name : String) : List String :=
  (vs.filter fun v => v.1 = name).flatMap Prod.snd

theorem lookup_addClassInstVars (v : String × List String) (name : String) :
    (classes.addClassInstVars v).lookup name =
      (classes.lookup name).map fun info =>
        if v.1 = name then info.extend v.2 else info := by
  unfold addClassInstVars
  cases hinfo : classes.lookup v.1 with
  | none =>
      by_cases hname : v.1 = name
      · rw [← hname, hinfo]
        rfl
      · simp [hname]
  | some info =>
      by_cases hname : v.1 = name
      · subst hname
        simp [AList.lookup_insert, hinfo]
      · rw [AList.lookup_insert_ne (Ne.symm hname)]
        simp [hname]

theorem lookup_foldl_addClassInstVars (vs : List (String × List String)) (name : String) :
    (vs.foldl addClassInstVars classes).lookup name =
      (classes.lookup name).map fun info => info.extend (addedVars vs name) := by
  induction vs generalizing classes with
  | nil =>
      simp [addedVars, ClassInfo.extend]
  | cons v vs ih =>
      rw [List.foldl_cons, ih, lookup_addClassInstVars, Option.map_map]
      congr 1
      funext info
      by_cases hname : v.1 = name
      · simp [addedVars, ClassInfo.extend, hname]
      · simp [addedVars, ClassInfo.extend, hname]

/-- The last declaration of a name. -/
def lastDecl (ds : List ClassDecl) (name : String) : Option ClassDecl :=
  ds.findRev? fun d => d.name = name

theorem lookup_foldl_insert (ds : List ClassDecl) (name : String) :
    (ds.foldl (fun classes d => classes.insert d.name d.info) classes).lookup name =
      ((lastDecl ds name).map ClassDecl.info).or (classes.lookup name) := by
  induction ds generalizing classes with
  | nil => rfl
  | cons d ds ih =>
      rw [List.foldl_cons, ih, lastDecl, lastDecl, List.findRev?]
      cases hlast : List.findRev? (fun d => decide (d.name = name)) ds with
      | some d' => rfl
      | none =>
          by_cases hname : d.name = name
          · subst hname
            simp [AList.lookup_insert]
          · rw [AList.lookup_insert_ne (Ne.symm hname)]
            simp [hname]

theorem lookup_union (name : String) :
    (known ∪ registry).lookup name = (known.lookup name).or (registry.lookup name) := by
  cases hname : known.lookup name with
  | none =>
      have hnotMem : name ∉ known := AList.lookup_eq_none.mp hname
      rw [AList.lookup_union_right hnotMem, Option.none_or]
  | some info =>
      have hmem : name ∈ known := AList.lookup_isSome.mp (Option.isSome_of_eq_some hname)
      rw [AList.lookup_union_left hmem, hname, Option.some_or]

/-- What a module adds to the class-instance variables of a name. -/
def added (tops : List Top) (name : String) : List String :=
  addedVars (tops.filterMap Top.classInstVars) name

/-- The table of a module: its own declaration of a name, or what was known of it. -/
theorem lookup_collected (name : String) :
    (collected registry known tops).lookup name =
      (((lastDecl (tops.filterMap Top.decl) name).map ClassDecl.info).or
        ((known.lookup name).or (registry.lookup name))).map
          fun info => info.extend (added tops name) := by
  rw [collected, lookup_foldl_addClassInstVars, lookup_foldl_insert, lookup_union]
  rfl

theorem lastDecl_eq_none {ds : List ClassDecl} {name : String} :
    lastDecl ds name = none ↔ name ∉ ds.map ClassDecl.name := by
  rw [lastDecl, List.findRev?_eq_find?_reverse, List.find?_eq_none]
  simp

/-- A class the module declares is its own whatever is known. -/
theorem lookup_collected_declared {name : String} (h : name ∈ declared tops)
    (registry' known' : ClassMap) :
    (collected registry known tops).lookup name
      = (collected registry' known' tops).lookup name := by
  rw [lookup_collected, lookup_collected]
  cases hlast : lastDecl (tops.filterMap Top.decl) name with
  | none => exact absurd h (lastDecl_eq_none.mp hlast)
  | some d => rfl

theorem lookup_publish (name : String) :
    (classes.publish registry tops).lookup name =
      if name ∈ declared tops then (classes.lookup name).or (registry.lookup name)
      else registry.lookup name := by
  rw [publish]
  induction declared tops generalizing registry with
  | nil => rfl
  | cons c cs ih =>
      rw [List.foldl_cons, ih]
      cases hc : classes.lookup c with
      | none =>
          by_cases hname : name = c
          · subst hname
            simp [hc]
          · simp [hname]
      | some info =>
          by_cases hname : name = c
          · subst hname
            simp [hc, AList.lookup_insert]
          · simp [hname, AList.lookup_insert_ne hname]

/-- What is reported of redefined variables. -/
theorem mem_redefinitions {err : ClassError} :
    err ∈ classes.redefinitions ↔
      ∃ name iv sup, err = .alreadyDefined iv name sup ∧ classes.Conflict name iv sup := by
  unfold redefinitions redefinedBy Conflict
  simp only [List.mem_flatMap, List.mem_map, List.mem_filter, List.contains_eq_mem,
    decide_eq_true_eq, mem_superclasses]
  constructor
  · rintro ⟨⟨name, info⟩, hentry, ⟨sup, supInfo⟩, hsup, iv, ⟨hiv, hiv'⟩, rfl⟩
    exact ⟨name, iv, sup, rfl, info, supInfo, AList.mem_lookup_iff.mpr hentry, hsup, hiv, hiv'⟩
  · rintro ⟨name, iv, sup, rfl, info, supInfo, hlookup, hsup, hiv, hiv'⟩
    exact ⟨⟨name, info⟩, AList.mem_lookup_iff.mp hlookup, (sup, supInfo), hsup, iv,
      ⟨hiv, hiv'⟩, rfl⟩

end ClassMap

end ProtoST.Frontend
