import ProtoST.Runtime.Bytecode

/-!
# Syntax trees

The expressions, statements and top-level forms of `AST.h`, as the parser leaves
them after a parse without errors: every child the grammar asks for is there.
Selectors are made of the tokens of the lexer, so their texts keep the lexer's
alphabet: a unary selector has no colon, a keyword ends in the only one it has.

## Main results

* `keywordSelector_colons`, `keywordSelector_super`, `Ident.super_argCount`,
  `Operator.super_argCount` — the argument count the virtual machine reads off
  the text of a selector is the number of arguments written.
-/

namespace ProtoST.Frontend

open ProtoST.Runtime.Bytecode

/-! ## Tokens of selectors -/

/-- A character of an identifier after the first. -/
def isIdentChar (c : Char) : Bool := c.isAlphanum || c == '_'

/-- `isOperatorChar` of the lexer, and the bar, which is a token of its own. -/
def isOperatorChar (c : Char) : Bool :=
  "+*/\\&,@=~<>%?!-|".toList.contains c

/-- An identifier token. -/
structure Ident where
  text : String
  head : (text.toList.head?.any fun c => c.isAlpha || c == '_') = true
  chars : text.toList.all isIdentChar = true
  deriving DecidableEq

/-- A binary operator token, or a bar read as one. -/
structure Operator where
  text : String
  nonempty : text.toList.isEmpty = false
  chars : text.toList.all isOperatorChar = true
  deriving DecidableEq

/-- A keyword token is an identifier and a colon. -/
def keywordText (k : Ident) : String := k.text ++ ":"

/-- The selector of the keywords of a message. -/
def keywordSelector (keywords : List Ident) : String :=
  String.join (keywords.map keywordText)

/-! ## Nodes -/

mutual

/-- An expression or a statement. -/
inductive Node where
  /-- `IntegerLit`, `FloatLit`, `StringLit`, `SymbolLit` and `CharLit`. -/
  | literal (value : Constant)
  | trueLit
  | falseLit
  | nilLit
  | self
  | super
  | thisContext
  | identifier (name : String)
  | assignment (name : String) (value : Node)
  | unarySend (receiver : Node) (selector : Ident)
  | binarySend (receiver : Node) (selector : Operator) (argument : Node)
  | keywordSend (receiver : Node) (parts : List (Ident × Node))
  /-- `receiver name(p₁, …, k₁ = v₁, …)`, the keys sorted. -/
  | callSend (receiver : Node) (name : Ident) (positional : List Node)
      (named : List (Ident × Node))
  | cascade (receiver : Node) (messages : List Partial)
  /-- `#( … )` and `{ … }`. -/
  | arrayLit (elements : List Node)
  | block (args locals : List String) (body : List Node)
  | ret (value : Node)

/-- A headless send of a cascade.  Behind a semicolon the parser nests a chain of
unary selectors, the last one outermost. -/
inductive Partial where
  | unary (chain : List Ident) (selector : Ident)
  | binary (selector : Operator) (argument : Node)
  | keyword (parts : List (Ident × Node))
  | call (name : Ident) (positional : List Node) (named : List (Ident × Node))

end

/-- `isSuperReceiver`, of the receiver. -/
def Node.isSuper : Node → Bool
  | .super => true
  | _ => false

def Node.isRet : Node → Bool
  | .ret _ => true
  | _ => false

/-- `Super subclass: #Name … uses: mixins`. -/
structure ClassDecl where
  name : String
  superName : String
  instVars : List String
  classVars : List String
  mixins : Option Node

/-- `Name >> pattern body` or `Name class >> pattern body`. -/
structure MethodDecl where
  className : String
  classSide : Bool
  selector : String
  args : List String
  locals : List String
  body : List Node

/-- `Name >> method(p₁, …, k₁ = e₁, …) body`, the named parameters sorted. -/
structure CallMethodDecl where
  className : String
  classSide : Bool
  name : String
  positional : List String
  named : List (String × Node)
  locals : List String
  body : List Node

/-- A top-level form. -/
inductive Top where
  | classDecl (d : ClassDecl)
  | methodDecl (d : MethodDecl)
  | callMethodDecl (d : CallMethodDecl)
  | statement (n : Node)

/-! ## The texts of selectors -/

theorem Ident.notMem {c : Char} (hc : isIdentChar c = false) (i : Ident) :
    c ∉ i.text.toList := by
  intro h
  have hall := List.all_eq_true.mp i.chars c h
  rw [hc] at hall
  cases hall

theorem Ident.callKey (i : Ident) : CallKey i.text := by
  refine ⟨i.notMem (by decide), fun h => ?_⟩
  have hhead := i.head
  rw [h] at hhead
  cases hhead

theorem keywordSelector_colons (keywords : List Ident) :
    (keywordSelector keywords).toList.count ':' = keywords.length := by
  induction keywords with
  | nil => rfl
  | cons k keywords ih =>
    have hk : k.text.toList.count ':' = 0 :=
      List.count_eq_zero.mpr (k.notMem (by decide))
    have hsplit : (keywordSelector (k :: keywords)).toList
        = k.text.toList ++ ':' :: (keywordSelector keywords).toList := by
      simp [keywordSelector, keywordText, String.toList_join]
    simp only [hsplit, List.count_append, hk, List.count_cons_self, ih, List.length_cons]
    omega

/-- A keyword selector has one argument for each keyword, also behind `super`. -/
theorem keywordSelector_super (keywords : List Ident) :
    sendArgCount .super (keywordSelector keywords) = keywords.length := by
  cases keywords with
  | nil => decide
  | cons k keywords =>
    simp only [sendArgCount, keywordSelector_colons, List.length_cons, Nat.succ_ne_zero,
      decide_false, Bool.false_and, Bool.false_eq_true, if_false]

/-- A unary selector has no arguments, also behind `super`. -/
theorem Ident.super_argCount (i : Ident) : sendArgCount .super i.text = 0 := by
  have hcolons : i.text.toList.count ':' = 0 :=
    List.count_eq_zero.mpr (i.notMem (by decide))
  have hhead := i.head
  cases htext : i.text.toList with
  | nil => simp [htext] at hhead
  | cons c cs =>
    have hc : (c.isAlpha || c == '_') = true := by simpa [htext] using hhead
    have hneg : (!c.isAlpha && c != '_') = false := by
      cases h1 : c.isAlpha <;> cases h2 : c == '_' <;> simp_all
    rw [htext] at hcolons
    simp [sendArgCount, htext, hcolons, hneg]

theorem isOperatorChar_head {c : Char} (h : isOperatorChar c = true) :
    (!c.isAlpha && c != '_') = true ∧ c ≠ ':' := by
  simp only [isOperatorChar, List.contains_eq_mem, decide_eq_true_eq] at h
  have hall : ("+*/\\&,@=~<>%?!-|".toList.all fun c =>
      (!c.isAlpha && c != '_') && c != ':') = true := by
    decide
  have hc := List.all_eq_true.mp hall c h
  rw [Bool.and_eq_true, bne_iff_ne] at hc
  exact hc

/-- A binary selector has one argument, also behind `super`. -/
theorem Operator.super_argCount (o : Operator) : sendArgCount .super o.text = 1 := by
  have hall := List.all_eq_true.mp o.chars
  have hcolons : o.text.toList.count ':' = 0 := by
    apply List.count_eq_zero.mpr
    intro h
    exact (isOperatorChar_head (hall ':' h)).2 rfl
  have hne := o.nonempty
  cases htext : o.text.toList with
  | nil => simp [htext] at hne
  | cons c cs =>
    have hc := (isOperatorChar_head (hall c (htext ▸ List.mem_cons_self))).1
    rw [htext] at hcolons
    simp only [Bool.and_eq_true, Bool.not_eq_true', bne_iff_ne, ne_eq] at hc
    simp [sendArgCount, htext, hcolons, hc]

end ProtoST.Frontend
