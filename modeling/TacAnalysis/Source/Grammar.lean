/-
# The grammar of program texts

Readers for every construct of a program text, from types up to whole texts.
Alternatives are tried in the order they are listed in.
-/

import TacAnalysis.Source.Lexical
import TacAnalysis.Source.Tree

namespace TacAnalysis.Source

namespace Reader

/-- The keywords naming primitive types. -/
def primitiveTypes : List (String × Ty) :=
  [("void", .void), ("boolean", .boolean), ("byte", .byte), ("short", .short), ("char", .char),
    ("int", .int), ("long", .long), ("float", .float), ("double", .double)]

/-- Reads a type: a primitive or class name, then one pair of brackets per array
dimension. -/
def type : Reader Ty := do
  let base ← oneOfKeywords primitiveTypes <|> (Ty.named <$> className)
  let dimensions ← many (mark "[" *> mark "]")
  pure (dimensions.foldl (fun ty _ => .array ty) base)

/-- The operators, those that start like a shorter one being listed before it. -/
def operators : List (String × BinOp) :=
  [(">>>", .ushr), ("<<", .shl), (">>", .shr), ("<=", .le), (">=", .ge), ("==", .eq),
    ("!=", .ne), ("<", .lt), (">", .gt), ("+", .add), ("-", .sub), ("*", .mul), ("/", .div),
    ("%", .rem), ("&", .and), ("|", .or), ("^", .xor)]

/-- Reads a binary operator. -/
def operator : Reader BinOp := oneOfMarks operators

/-- Reads a comparison operator. -/
def comparison : Reader BinOp := do
  let op ← operator
  if op.isCondition then pure op else fail

/-- Reads a method named in full: `<Class: type name(types)>`. -/
def methodName : Reader MethodName := do
  mark "<"
  let owner ← className
  mark ":"
  let ret ← type
  let name ← identifier
  let params ← parenthesized type
  mark ">"
  pure ⟨owner, ⟨name, params, ret⟩⟩

/-- The keywords of calls made on a receiver. -/
def instanceCallKinds : List (String × CallKind) :=
  [("invokevirtual", .virtual), ("invokespecial", .special), ("invokeinterface", .interface)]

/-- Reads a static call. -/
def staticCall : Reader CallExp := do
  keyword "invokestatic"
  let target ← methodName
  let args ← parenthesized identifier
  pure ⟨.static, none, target, args⟩

/-- Reads a call made on a receiver. -/
def instanceCall : Reader CallExp := do
  let kind ← oneOfKeywords instanceCallKinds
  let receiver ← identifier
  mark "."
  let target ← methodName
  let args ← parenthesized identifier
  pure ⟨kind, some receiver, target, args⟩

/-- Reads a call. -/
def call : Reader CallExp := staticCall <|> instanceCall

/-- Reads an access to a static field, `Class::field`. -/
def staticField : Reader FieldPath := do
  let owner ← className
  mark "::"
  let field ← identifier
  pure (.ofClass owner field)

/-- Reads an access to an instance field, `base.field`. -/
def instanceField : Reader FieldPath := do
  let base ← identifier
  mark "."
  let field ← identifier
  pure (.ofBase base field)

/-- Reads a field access. -/
def fieldPath : Reader FieldPath := staticField <|> instanceField

/-- Reads an access to an array element, as the array and the index. -/
def element : Reader (String × String) := do
  let base ← identifier
  let index ← between "[" "]" identifier
  pure (base, index)

/-- Reads a cast of a variable. -/
def castOperand : Reader Operand := do
  let ty ← between "(" ")" type
  let name ← identifier
  pure (.cast ty name)

/-- Reads two variables joined by an operator. -/
def binaryOperand : Reader Operand := do
  let left ← identifier
  let op ← operator
  let right ← identifier
  pure (.binary op left right)

/-- Reads the right-hand side of an assignment. -/
def operand : Reader Operand :=
  firstOf
    [Operand.new <$> (keyword "new" *> type),
      Operand.call <$> call,
      castOperand,
      (fun value => Operand.literal (.int value)) <$> number,
      (fun _ => Operand.literal .null) <$> keyword "null",
      Operand.field <$> fieldPath,
      (fun access => Operand.element access.1 access.2) <$> element,
      binaryOperand,
      Operand.copy <$> identifier]

/-- Reads one entry of a switch: a value, or none for the default, and the label
it leads to. -/
def switchEntry : Reader (Option Int32 × String) :=
  (do keyword "default"; mark "->"; let label ← identifier; pure (none, label)) <|>
  (do let value ← number; mark "->"; let label ← identifier; pure (some value, label))

/-- The cases of a switch, in order. -/
def switchCases (entries : List (Option Int32 × String)) : List (Int32 × String) :=
  entries.filterMap fun entry => entry.1.map fun value => (value, entry.2)

/-- The default labels of a switch, in order. -/
def switchDefaults (entries : List (Option Int32 × String)) : List String :=
  entries.filterMap fun entry => if entry.1.isNone then some entry.2 else none

/-- Reads a switch. Its default may stand anywhere among the cases; a switch
without exactly one of them is refused. -/
def switch : Reader Action := do
  keyword "switch"
  let scrutinee ← identifier
  let entries ← between "\x7b" "\x7d" (separated (mark ",") switchEntry)
  match switchDefaults entries with
  | [label] => pure (.switch scrutinee (switchCases entries) label)
  | _ => fun _ => .refused (.invalid (.switchDefaults scrutinee))

/-- Reads a conditional jump. -/
def branch : Reader Action := do
  keyword "if"
  let left ← identifier
  let op ← comparison
  let right ← identifier
  keyword "goto"
  let label ← identifier
  pure (.branch op left right label)

/-- Reads a store to a field. -/
def fieldStore : Reader Action := do
  let path ← fieldPath
  mark "="
  let source ← identifier
  pure (.storeField path source)

/-- Reads a store to an array element. -/
def elementStore : Reader Action := do
  let access ← element
  mark "="
  let source ← identifier
  pure (.storeElement access.1 access.2 source)

/-- Reads an assignment to a variable. -/
def assignment : Reader Action := do
  let target ← identifier
  mark "="
  let value ← operand
  pure (.assign target value)

/-- Reads a statement without its label. -/
def action : Reader Action :=
  firstOf
    [(fun _ => Action.nop) <$> keyword "nop",
      Action.ret <$> (keyword "return" *> optional identifier),
      Action.goto <$> (keyword "goto" *> identifier),
      branch,
      switch,
      Action.call <$> call,
      fieldStore,
      elementStore,
      assignment]

/-- Reads a label: a word and a colon that is not the first of two. -/
def label : Reader String := do
  let name ← identifier
  mark ":"
  fun rest => if rest.head? = some ':' then .unmatched else .matched name rest

/-- Reads a statement and the semicolon after it. -/
def line : Reader Line := do
  let name ← optional label
  let what ← action
  mark ";"
  pure ⟨name, what⟩

/-- Reads a declaration of variables of one type. -/
def variableDecls : Reader (List TypedName) := do
  keyword "var"
  let ty ← type
  let names ← separated (mark ",") identifier
  mark ";"
  pure (names.map fun name => ⟨ty, name⟩)

/-- Reads a method body. Declarations of variables and statements may alternate. -/
def body : Reader Body := do
  let items ← between "\x7b" "\x7d" (many ((Sum.inl <$> variableDecls) <|> (Sum.inr <$> line)))
  pure ⟨(items.filterMap Sum.getLeft?).flatten, items.filterMap Sum.getRight?⟩

/-- Reads a field declaration. -/
def field : Reader FieldDecl := do
  let static ← optional (keyword "static")
  keyword "field"
  let ty ← type
  let name ← identifier
  mark ";"
  pure ⟨name, ty, static.isSome⟩

/-- What may be said of a method before the word introducing it. -/
inductive Modifier where
  | static
  | abstract
  deriving DecidableEq, Inhabited

/-- Reads a parameter. -/
def parameter : Reader TypedName := do
  let ty ← type
  let name ← identifier
  pure ⟨ty, name⟩

/-- Reads a method declaration, which ends with a body or a semicolon. -/
def method : Reader MethodDecl := do
  let modifiers ← many (oneOfKeywords [("static", Modifier.static), ("abstract", .abstract)])
  keyword "method"
  let name ← identifier
  let params ← parenthesized parameter
  mark ":"
  let ret ← type
  let block ← ((fun _ => none) <$> mark ";") <|> (some <$> body)
  pure ⟨name, params, ret, modifiers.contains .static, modifiers.contains .abstract, block⟩

/-- Reads the class names after a keyword, none if the keyword is not there. -/
def namesAfter (word : String) : Reader (List String) := do
  let names ← optional (keyword word *> separated (mark ",") className)
  pure (names.getD [])

/-- Reads a class or interface declaration. -/
def classDecl : Reader ClassDecl := do
  let abstract ← optional (keyword "abstract")
  let isInterface ← oneOfKeywords [("class", false), ("interface", true)]
  let name ← className
  let superNames ← namesAfter "extends"
  let interfaceNames ← namesAfter "implements"
  let members ← between "\x7b" "\x7d" (many ((Sum.inl <$> field) <|> (Sum.inr <$> method)))
  pure ⟨name, isInterface, abstract.isSome, superNames, interfaceNames,
    members.filterMap Sum.getLeft?, members.filterMap Sum.getRight?⟩

/-- Reads an entry directive. -/
def entry : Reader MethodName := keyword "entry" *> methodName <* mark ";"

/-- Reads the declarations at the front of a text. -/
def declarations : Reader Declarations := do
  let items ← many ((Sum.inl <$> classDecl) <|> (Sum.inr <$> entry))
  pure ⟨items.filterMap Sum.getLeft?, items.filterMap Sum.getRight?⟩

end Reader

/-- The declarations of a text, which must be nothing but declarations and
blanks. -/
def parse (text : List Char) : Except ProgramError Declarations :=
  match Reader.declarations text with
  | .matched found rest =>
      match skipBlanks false rest with
      | [] => .ok found
      | unread => .error (.unreadable unread)
  | .unmatched => .error (.unreadable text)
  | .refused error => .error error

end TacAnalysis.Source
