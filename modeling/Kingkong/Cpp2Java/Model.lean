import Kingkong.Lib.Bytes
import Kingkong.Lib.Run

/-!
The tool `cpp2java`, which writes the enumerations of a C++ header as constants of Java classes. It
goes by the first word of each line: a keyword opens a class, a word with a brace closes one, and
between the two every line of an enumeration becomes a constant whose value is the number of the
line.
-/

namespace Kingkong.Cpp2Java
open Lib

abbrev Text := List Char

/-- `NAMESPACE_KEYWORD` and `ENUM_KEYWORD`. -/
inductive Keyword where
  | namespaceKeyword
  | enumKeyword
  deriving DecidableEq

def Keyword.text : Keyword → Text
  | .namespaceKeyword => ['n', 'a', 'm', 'e', 's', 'p', 'a', 'c', 'e']
  | .enumKeyword => ['e', 'n', 'u', 'm']

def Keyword.ofText (word : Text) : Option Keyword :=
  if word = Keyword.namespaceKeyword.text then some .namespaceKeyword
  else if word = Keyword.enumKeyword.text then some .enumKeyword
  else none

/-! ### The tool -/

/-- A line of the Java file, indented by tabs. -/
inductive JavaLine where
  /-- `package com.mvvm;` -/
  | package
  /-- `public class LogicDefine` and an opening brace. -/
  | logicDefine
  /-- `public static class`, the name and an opening brace. -/
  | staticClass (tabs : Nat) (name : Text)
  /-- `public static final int`, the name, `=`, the value and a semicolon, behind three tabs. -/
  | constant (name : Text) (value : Nat)
  /-- A closing brace. -/
  | close (tabs : Nat)
  deriving DecidableEq

def isSeparator (c : Char) : Bool := c == ' ' || c == ',' || c == '\t'

/-- `Split(line, " ,\t")`, which drops the empty parts. -/
def split (line : Text) : List Text := words isSeparator line

structure State where
  lineCount : Nat := 0
  currentKeyword : Option Keyword := none
  javaFile : List JavaLine := [.package, .logicDefine]
  deriving DecidableEq

namespace State

def write (s : State) (line : JavaLine) : State := { s with javaFile := s.javaFile ++ [line] }

def closeClass (s : State) : State :=
  { s.write (.close (if s.currentKeyword ≠ some .enumKeyword then 1 else 2)) with currentKeyword := none }

def openClass (s : State) (keyword : Keyword) (name : Text) : State :=
  { s.write (.staticClass (if keyword = .namespaceKeyword then 1 else 2) name) with currentKeyword := some keyword }

def writeConstant (s : State) (name : Text) : State :=
  if s.currentKeyword = some .enumKeyword then s.write (.constant name s.lineCount) else s

end State

/-- One iteration of the loop. The second word of a line with a keyword is read without a check that
there is one, and then the iteration has no result. -/
def translateLine (s : State) (line : Text) : Option State :=
  let s := { s with lineCount := s.lineCount + 1 }
  match split line with
  | [] => some s
  | first :: others =>
    if '}' ∈ first then some s.closeClass
    else
      match Keyword.ofText first with
      | some keyword => others.head?.map (s.openClass keyword)
      | none => some (s.writeConstant first)

/-- The Java file for a header. `getline` takes the last line as well when no line break follows it,
and an empty one when one does. -/
def cpp2java (file : Text) : Option (List JavaLine) :=
  (run translateLine {} (file.splitOn '\n')).map fun s => s.javaFile ++ [.close 0]

/-! ### What a Java file says -/

structure JavaClass where
  name : Text
  constants : List (Text × Nat)
  deriving DecidableEq

/-- The classes that are open, the innermost first, and those that have been closed. -/
structure Reader where
  stack : List JavaClass := []
  closed : List JavaClass := []
  deriving DecidableEq

def logicDefine : Text := ['L', 'o', 'g', 'i', 'c', 'D', 'e', 'f', 'i', 'n', 'e']

def readLine (s : Reader) : JavaLine → Option Reader
  | .package => some s
  | .logicDefine => some { s with stack := ⟨logicDefine, []⟩ :: s.stack }
  | .staticClass _ name => some { s with stack := ⟨name, []⟩ :: s.stack }
  | .constant name value =>
    match s.stack with
    | [] => none
    | top :: rest => some { s with stack := { top with constants := top.constants ++ [(name, value)] } :: rest }
  | .close _ =>
    match s.stack with
    | [] => none
    | top :: rest => some { stack := rest, closed := s.closed ++ [top] }

/-- The classes of a file with balanced braces, each with the constants directly in it. -/
def javaClasses (file : List JavaLine) : Option (List JavaClass) :=
  (run readLine {} file).bind fun s => if s.stack = [] then some s.closed else none

/-! ### Headers -/

def isIdentifierChar (c : Char) : Bool := c.isAlphanum || c == '_'

structure Identifier where
  text : Text
  nonempty : text ≠ []
  chars : text.all isIdentifierChar = true
  notKeyword : Keyword.ofText text = none

/-- The lines a header is made of. `rest` is what follows a closing brace or the slashes of a
comment. -/
inductive Line where
  | opens (keyword : Keyword) (name : Identifier)
  | first (name : Identifier)
  | enumerator (name : Identifier) (comma : Bool)
  | close (rest : Text)
  | blank
  | comment (rest : Text)

def Line.text : Line → Text
  | .opens keyword name => keyword.text ++ ' ' :: (name.text ++ [' ', '{'])
  | .first name => name.text ++ [' ', '=', ' ', '_', '_', 'L', 'I', 'N', 'E', '_', '_', ',']
  | .enumerator name comma => name.text ++ if comma then [','] else []
  | .close rest => '}' :: rest
  | .blank => []
  | .comment rest => '/' :: '/' :: rest

def isBlank (c : Char) : Bool := c == ' ' || c == '\t'

/-- A comment that ends with its line. -/
def ownLine (rest : Text) : Bool := !rest.contains '\\'

/-- Nothing but semicolons and a comment stands behind a closing brace, and no comment goes on in the
next line. -/
def Line.plain : Line → Bool
  | .close rest =>
    let behind := rest.dropWhile fun c => isBlank c || c == ';'
    behind.isEmpty || (['/', '/'].isPrefixOf behind && ownLine behind)
  | .comment rest => ownLine rest
  | .opens _ _ | .first _ | .enumerator _ _ | .blank => true

/-- A line with blanks around it. -/
structure HeaderLine where
  indent : Text := []
  line : Line
  trail : Text := []
  indentBlank : indent.all isBlank = true := by rfl
  trailBlank : trail.all isBlank = true := by rfl
  oneLine : '\n' ∉ line.text
  plain : line.plain = true := by rfl

def HeaderLine.text (l : HeaderLine) : Text := l.indent ++ (l.line.text ++ l.trail)

def headerText (header : List HeaderLine) : Text := ['\n'].intercalate (header.map HeaderLine.text)

/-- The first word of a line that does not begin with a separator. -/
def HeaderLine.firstWord (l : HeaderLine) : Text :=
  (l.line.text ++ l.trail).takeWhile (!isSeparator ·)

/-! ### What the compiler makes of a header -/

structure Scope where
  isEnum : Bool
  name : Text
  enumerators : List (Text × Nat)
  deriving DecidableEq

/-- The scopes that are open, the innermost first, and those that have been closed, with the number
of lines read. -/
structure Compiler where
  line : Nat := 0
  stack : List Scope := []
  closed : List Scope := []
  deriving DecidableEq

def Compiler.inEnum (s : Compiler) : Bool := s.stack.head?.any (·.isEnum)

/-- The value of an enumerator: `__LINE__` for the first, one more than the one before it for
another. There is no next state where the lines are not properly nested. -/
def compileLine (s : Compiler) (l : HeaderLine) : Option Compiler :=
  let next := { s with line := s.line + 1 }
  match l.line, s.stack with
  | .blank, _ => some next
  | .comment _, _ => some next
  | .opens keyword name, stack =>
    if s.inEnum then none else some { next with stack := ⟨keyword = .enumKeyword, name.text, []⟩ :: stack }
  | .first name, top :: rest =>
    if top.isEnum = true ∧ top.enumerators = [] then
      some { next with stack := { top with enumerators := [(name.text, next.line)] } :: rest }
    else none
  | .enumerator name _, top :: rest =>
    if top.isEnum then
      top.enumerators.getLast?.map fun (_, value) =>
        { next with stack := { top with enumerators := top.enumerators ++ [(name.text, value + 1)] } :: rest }
    else none
  | .close _, top :: rest => some { next with stack := rest, closed := s.closed ++ [top] }
  | _, [] => none

end Kingkong.Cpp2Java
