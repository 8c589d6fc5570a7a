import Kingkong.Cpp2Java.Model
import Mathlib.Data.List.Forall2
import Mathlib.Data.List.TakeWhile

/-!
When the Java file agrees with the compiler. A header and the file that is made of it are read side
by side, and the classes that are open and the classes that have been closed are compared after each
line. What goes apart stays apart: a class never has fewer constants than its enumeration has
enumerators, and a brace that is closed too early is missing at the end.
-/

namespace Kingkong.Cpp2Java
open Lib

variable {s : State} {l : HeaderLine} {header : List HeaderLine}

/-! ### What the tool does with a line of a header -/

def State.next (s : State) : State := { s with lineCount := s.lineCount + 1 }

def State.take (s : State) (l : HeaderLine) : State :=
  match l.line with
  | .opens keyword name => s.next.openClass keyword name.text
  | .first name | .enumerator name _ => s.next.writeConstant name.text
  | .close _ => s.next.closeClass
  | .blank => s.next
  | .comment _ => if '}' ∈ l.firstWord then s.next.closeClass else s.next.writeConstant l.firstWord

theorem blank_separator {pad : Text} {c : Char} (blank : pad.all isBlank = true) (mem : c ∈ pad) :
    isSeparator c = true := by
  have isBlank := List.all_eq_true.mp blank c mem
  rw [Cpp2Java.isBlank, Bool.or_eq_true, beq_iff_eq, beq_iff_eq] at isBlank
  rcases isBlank with rfl | rfl <;> decide

theorem split_text (l : HeaderLine) : split l.text = split (l.line.text ++ l.trail) :=
  words_separators l.indent _ fun _ mem => blank_separator l.indentBlank mem

/-- A line that begins with another character than a separator begins with a word. -/
theorem split_firstWord {c : Char} {rest : Text} (text : l.line.text = c :: rest)
    (inside : isSeparator c = false) :
    ∃ others, split l.text = l.firstWord :: others := by
  have first : l.firstWord = c :: (rest ++ l.trail).takeWhile (!isSeparator ·) := by
    simp [HeaderLine.firstWord, text, inside]
  have whole : l.line.text ++ l.trail =
      l.firstWord ++ (l.line.text ++ l.trail).dropWhile (!isSeparator ·) :=
    List.takeWhile_append_dropWhile.symm
  rw [split_text, whole]
  refine ⟨_, words_append l.firstWord _ (by simp [first]) (fun x mem => ?_) fun x mem => ?_⟩
  · simpa using List.mem_takeWhile_imp mem
  · have := List.head?_dropWhile_not (!isSeparator ·) (l.line.text ++ l.trail)
    rw [mem] at this
    simpa using this

theorem Identifier.outside (name : Identifier) {c : Char} (other : isIdentifierChar c = false) :
    c ∉ name.text := by
  intro mem
  rw [List.all_eq_true.mp name.chars c mem] at other
  cases other

theorem Identifier.inside (name : Identifier) : ∀ c ∈ name.text, isSeparator c = false := by
  intro c mem
  by_contra separator
  rw [Bool.not_eq_false, isSeparator, Bool.or_eq_true, Bool.or_eq_true, beq_iff_eq, beq_iff_eq,
    beq_iff_eq] at separator
  rcases separator with (rfl | rfl) | rfl
  all_goals exact name.outside (by decide) mem

/-- An identifier that a separator or nothing follows is the first word. -/
theorem split_identifier (name : Identifier) {rest : Text} (text : l.line.text = name.text ++ rest)
    (stop : ∀ c ∈ (rest ++ l.trail).head?, isSeparator c = true) :
    ∃ others, split l.text = name.text :: others := by
  rw [split_text, text, List.append_assoc]
  exact ⟨_, words_append name.text _ name.nonempty name.inside stop⟩

theorem split_opens {keyword : Keyword} {name : Identifier} (line : l.line = .opens keyword name) :
    ∃ others, split l.text = keyword.text :: name.text :: others := by
  have text : l.line.text ++ l.trail =
      keyword.text ++ (' ' :: (name.text ++ (' ' :: '{' :: l.trail))) := by
    simp [line, Line.text]
  have inside : keyword.text ≠ [] ∧ keyword.text.all (!isSeparator ·) = true := by
    cases keyword <;> decide
  rw [split_text, text, split, words_append keyword.text _ inside.1
    (fun c mem => by simpa using List.all_eq_true.mp inside.2 c mem) (by simp [isSeparator])]
  have second := words_separators (p := isSeparator) [' '] (name.text ++ ' ' :: '{' :: l.trail) (by simp [isSeparator])
  rw [List.singleton_append,
    words_append name.text _ name.nonempty name.inside (by simp [isSeparator])] at second
  exact ⟨_, by rw [second]⟩

theorem translateLine_identifier {name : Identifier} {others : List Text}
    (parts : split l.text = name.text :: others) :
    translateLine s l.text = some (s.next.writeConstant name.text) := by
  simp [translateLine, State.next, parts,
    name.outside (show isIdentifierChar '}' = false by decide), name.notKeyword]

theorem translateLine_text (s : State) (l : HeaderLine) :
    translateLine s l.text = some (s.take l) := by
  unfold State.take
  cases line : l.line with
  | opens keyword name =>
    obtain ⟨others, parts⟩ := split_opens line
    have ofText : '}' ∉ keyword.text ∧
        Keyword.ofText keyword.text = some keyword := by cases keyword <;> decide
    simp [translateLine, State.next, parts, ofText]
  | first name =>
    obtain ⟨others, parts⟩ :=
      split_identifier (l := l) name (by rw [line, Line.text]) (by simp [isSeparator])
    exact translateLine_identifier parts
  | enumerator name comma =>
    obtain ⟨others, parts⟩ := split_identifier (l := l) name (by rw [line, Line.text])
      (by
        cases comma
        · simpa using fun c mem => blank_separator l.trailBlank (List.mem_of_mem_head? mem)
        · simp [isSeparator])
    exact translateLine_identifier parts
  | close rest =>
    obtain ⟨others, parts⟩ := split_firstWord (l := l) (by rw [line, Line.text]) (by decide)
    have brace : '}' ∈ l.firstWord := by simp [HeaderLine.firstWord, line, Line.text, isSeparator]
    simp [translateLine, State.next, parts, brace]
  | blank =>
    have none : split l.text = [] := by
      rw [split_text, line, Line.text, List.nil_append, ← List.append_nil l.trail, split,
        words_separators l.trail [] fun _ mem => blank_separator l.trailBlank mem, words_nil]
    simp [translateLine, State.next, none]
  | comment rest =>
    obtain ⟨others, parts⟩ := split_firstWord (l := l) (by rw [line, Line.text]) (by decide)
    have other : Keyword.ofText l.firstWord = none := by
      simp [HeaderLine.firstWord, line, Line.text, isSeparator, Keyword.ofText, Keyword.text]
    by_cases brace : '}' ∈ l.firstWord
    · simp [translateLine, State.next, parts, brace]
    · simp [translateLine, State.next, parts, brace, other]

/-! ### What the compiler does with a line -/

variable {c d : Compiler}

/-- The value of an enumerator behind `enumerators`. -/
def Valued (c : Compiler) (enumerators : List (Text × Nat)) (name : Identifier) (value : Nat)
    (line : Line) : Prop :=
  line = .first name ∧ enumerators = [] ∧ value = c.line + 1 ∨
    ∃ comma last, line = .enumerator name comma ∧ last ∈ enumerators.getLast? ∧ value = last.2 + 1

inductive Compiles (c : Compiler) (l : HeaderLine) : Compiler → Prop
  | blank (line : l.line = .blank) : Compiles c l { c with line := c.line + 1 }
  | comment {rest : Text} (line : l.line = .comment rest) : Compiles c l { c with line := c.line + 1 }
  | opens {keyword : Keyword} {name : Identifier} (line : l.line = .opens keyword name) (outside : c.inEnum = false) :
      Compiles c l
        { c with line := c.line + 1, stack := ⟨keyword = .enumKeyword, name.text, []⟩ :: c.stack }
  | value {name : Identifier} {value : Nat} {top : Scope} {rest : List Scope} (stack : c.stack = top :: rest)
      (isEnum : top.isEnum = true) (valued : Valued c top.enumerators name value l.line) :
      Compiles c l
        { c with
          line := c.line + 1
          stack := { top with enumerators := top.enumerators ++ [(name.text, value)] } :: rest }
  | close {text : Text} {top : Scope} {rest : List Scope} (line : l.line = .close text) (stack : c.stack = top :: rest) :
      Compiles c l { line := c.line + 1, stack := rest, closed := c.closed ++ [top] }

theorem compileLine_compiles (h : compileLine c l = some d) : Compiles c l d := by
  unfold compileLine at h
  dsimp only at h
  cases line : l.line with
  | blank =>
    rw [line] at h
    cases h
    exact .blank line
  | comment rest =>
    rw [line] at h
    cases h
    exact .comment line
  | opens keyword name =>
    rw [line] at h
    dsimp only at h
    split_ifs at h with inEnum
    cases h
    exact .opens line (by simpa using inEnum)
  | first name =>
    rw [line] at h
    cases stack : c.stack with
    | nil => rw [stack] at h; cases h
    | cons top rest =>
      rw [stack] at h
      dsimp only at h
      split_ifs at h with first
      cases h
      have compiled := Compiles.value (l := l) stack first.1 (.inl ⟨line, first.2, rfl⟩)
      rwa [first.2] at compiled
  | enumerator name comma =>
    rw [line] at h
    cases stack : c.stack with
    | nil => rw [stack] at h; cases h
    | cons top rest =>
      rw [stack] at h
      dsimp only at h
      split_ifs at h with isEnum
      obtain ⟨last, isLast, rfl⟩ := Option.map_eq_some_iff.mp h
      exact .value stack isEnum (.inr ⟨comma, last, line, isLast, rfl⟩)
  | close rest =>
    rw [line] at h
    cases stack : c.stack with
    | nil => rw [stack] at h; cases h
    | cons top rest =>
      rw [stack] at h
      cases h
      exact .close line stack

/-! ### The two side by side -/

def outer : Scope := ⟨false, logicDefine, []⟩

def Scope.toClass (scope : Scope) : JavaClass := ⟨scope.name, scope.enumerators⟩

/-- What has been written so far, read. -/
def reading (s : State) : Option Reader := run readLine {} s.javaFile

theorem reading_write {line : JavaLine} {r : Reader} :
    reading (s.write line) = some r ↔ ∃ before, reading s = some before ∧
      readLine before line = some r := by
  unfold reading State.write
  rw [run_append]
  refine exists_congr fun before => and_congr_right fun _ => ?_
  rw [run_cons]
  simp [run]

/-- The file says what the compiler has seen. -/
def Same (c : Compiler) (s : State) : Prop :=
  reading s = some { stack := (c.stack ++ [outer]).map Scope.toClass, closed := c.closed.map Scope.toClass }

/-- The tool knows where it is. -/
structure Level (c : Compiler) (s : State) : Prop where
  line : s.lineCount = c.line
  keyword : s.currentKeyword = some .enumKeyword ↔ c.inEnum = true
  nested : ∀ scope ∈ c.stack.tail, scope.isEnum = false

/-- A comment that the tool takes for the end of a scope. -/
def Brace (l : HeaderLine) : Prop := ∃ rest, l.line = .comment rest ∧ '}' ∈ l.firstWord

theorem writeConstant_keeps (s : State) (name : Text) :
    (s.writeConstant name).lineCount = s.lineCount ∧
      (s.writeConstant name).currentKeyword = s.currentKeyword := by
  unfold State.writeConstant
  split <;> exact ⟨rfl, rfl⟩

theorem take_comment {rest : Text} (line : l.line = .comment rest) (noBrace : ¬ Brace l) :
    s.take l = s.next.writeConstant l.firstWord := by
  rw [State.take, line]
  exact if_neg fun brace => noBrace ⟨rest, line, brace⟩

theorem take_brace (brace : Brace l) : s.take l = s.next.closeClass := by
  obtain ⟨rest, line, brace⟩ := brace
  rw [State.take, line]
  exact if_pos brace

theorem take_opens {keyword : Keyword} {name : Identifier} (line : l.line = .opens keyword name) :
    s.take l = s.next.openClass keyword name.text := by
  rw [State.take, line]

theorem take_value {name : Identifier} {value : Nat} {enumerators : List (Text × Nat)}
    (valued : Valued c enumerators name value l.line) :
    s.take l = s.next.writeConstant name.text := by
  rcases valued with ⟨line, -⟩ | ⟨comma, last, line, -⟩ <;> rw [State.take, line]

theorem take_close {rest : Text} (line : l.line = .close rest) : s.take l = s.next.closeClass := by
  rw [State.take, line]

theorem take_blank (line : l.line = .blank) : s.take l = s.next := by
  rw [State.take, line]

/-- Outside of an enumeration no open scope is one. -/
theorem not_enum (outside : c.inEnum = false)
    (nested : ∀ scope ∈ c.stack.tail, scope.isEnum = false) :
    ∀ scope ∈ c.stack, scope.isEnum = false := by
  unfold Compiler.inEnum at outside
  cases stack : c.stack with
  | nil => simp
  | cons top rest =>
    rw [stack] at outside nested
    exact List.forall_mem_cons.mpr ⟨by simpa using outside, nested⟩

theorem Level.step (level : Level c s) (h : Compiles c l d) (noBrace : ¬ Brace l) :
    Level d (s.take l) := by
  obtain ⟨line, keyword, nested⟩ := level
  cases h with
  | blank isBlank =>
    rw [take_blank isBlank]
    exact ⟨congrArg (· + 1) line, keyword, nested⟩
  | comment isComment =>
    obtain ⟨count, kept⟩ := writeConstant_keeps s.next l.firstWord
    rw [take_comment isComment noBrace]
    exact ⟨count.trans (congrArg (· + 1) line), by rw [kept]; exact keyword, nested⟩
  | @opens opened name isOpens outside =>
    rw [take_opens isOpens]
    exact ⟨congrArg (· + 1) line, by simp [State.openClass, Compiler.inEnum], not_enum outside nested⟩
  | @value name value top rest stack isEnum valued =>
    obtain ⟨count, kept⟩ := writeConstant_keeps s.next name.text
    rw [take_value valued]
    refine ⟨count.trans (congrArg (· + 1) line), ?_, by simpa [stack] using nested⟩
    rw [kept]
    simpa [State.next, Compiler.inEnum, stack] using keyword
  | @close text top rest isClose stack =>
    rw [take_close isClose]
    rw [stack, List.tail_cons] at nested
    refine ⟨congrArg (· + 1) line, ?_, fun scope mem => nested scope (List.mem_of_mem_tail mem)⟩
    cases rest with
    | nil => simp [State.closeClass, Compiler.inEnum]
    | cons below others => simp [State.closeClass, Compiler.inEnum, nested below]

/-! ### Where the two go apart -/

variable {r : Reader}

theorem reading_openClass {keyword : Keyword} {name : Text} :
    reading (s.openClass keyword name) = some r ↔
      ∃ before, reading s = some before ∧
        r = { before with stack := ⟨name, []⟩ :: before.stack } := by
  refine (reading_write (s := s)).trans (exists_congr fun before => and_congr_right fun _ => ?_)
  simp [readLine, eq_comm]

theorem reading_closeClass :
    reading s.closeClass = some r ↔
      ∃ top before, reading s = some { stack := top :: r.stack, closed := before } ∧
        r.closed = before ++ [top] := by
  refine (reading_write (s := s)).trans ⟨?_, ?_⟩
  · rintro ⟨⟨stack, closed⟩, before, h⟩
    cases stack with
    | nil => cases h
    | cons top rest =>
      cases h
      exact ⟨top, closed, before, rfl⟩
  · obtain ⟨stack, closed⟩ := r
    rintro ⟨top, others, before, rfl⟩
    exact ⟨_, before, rfl⟩

theorem reading_writeConstant {name : Text} (inEnum : s.currentKeyword = some .enumKeyword) :
    reading (s.writeConstant name) = some r ↔
      ∃ top rest, reading s = some { stack := top :: rest, closed := r.closed } ∧
        r.stack = { top with constants := top.constants ++ [(name, s.lineCount)] } :: rest := by
  rw [State.writeConstant, if_pos inEnum, reading_write]
  constructor
  · rintro ⟨⟨stack, closed⟩, before, h⟩
    cases stack with
    | nil => cases h
    | cons top rest =>
      cases h
      exact ⟨top, rest, before, rfl⟩
  · obtain ⟨stack, closed⟩ := r
    rintro ⟨top, rest, before, rfl⟩
    exact ⟨_, before, rfl⟩

theorem writeConstant_outside {name : Text} (outside : s.currentKeyword ≠ some .enumKeyword) :
    s.writeConstant name = s :=
  if_neg outside

/-- More braces have been closed in the file than in the header, or more than there are. -/
def Lost (c : Compiler) (s : State) : Prop :=
  ∀ r, reading s = some r → r.stack.length ≤ c.stack.length

theorem Lost.not_same (lost : Lost c s) : ¬ Same c s := by
  intro same
  have := lost _ same
  simp only [List.length_map, List.length_append, List.length_singleton] at this
  omega

theorem Lost.writeConstant {name : Text} (lost : Lost c s) : Lost c (s.writeConstant name) := by
  intro r h
  by_cases inEnum : s.currentKeyword = some .enumKeyword
  · obtain ⟨top, rest, before, stack⟩ := (reading_writeConstant inEnum).mp h
    have := lost _ before
    rw [stack]
    simpa using this
  · rw [writeConstant_outside inEnum] at h
    exact lost r h

theorem Lost.step (lost : Lost c s) (h : Compiles c l d) : Lost d (s.take l) := by
  have next : Lost c s.next := lost
  cases h with
  | blank isBlank =>
    rw [take_blank isBlank]
    exact lost
  | comment isComment =>
    by_cases brace : Brace l
    · rw [take_brace brace]
      intro r h
      obtain ⟨top, closed, before, -⟩ := reading_closeClass.mp h
      have := lost _ before
      simp only [List.length_cons] at this
      dsimp only
      omega
    · rw [take_comment isComment brace]
      exact next.writeConstant
  | opens isOpens =>
    rw [take_opens isOpens]
    intro r h
    obtain ⟨before, read, rfl⟩ := reading_openClass.mp h
    simpa using lost before read
  | value stack isEnum valued =>
    rw [take_value valued]
    intro r h
    simpa [stack] using next.writeConstant r h
  | close isClose stack =>
    rw [take_close isClose]
    intro r h
    obtain ⟨top, closed, before, -⟩ := reading_closeClass.mp h
    simpa [stack] using lost _ before

/-- A class has at least as many constants as its scope has enumerators. -/
def Ahead (class_ : JavaClass) (scope : Scope) : Prop :=
  scope.enumerators.length ≤ class_.constants.length

/-- The tool knows where it is, and every open class is ahead of its scope. -/
structure Tracked (c : Compiler) (s : State) : Prop extends Level c s where
  ahead : ∃ r, reading s = some r ∧ List.Forall₂ Ahead r.stack (c.stack ++ [outer])

theorem Tracked.brace (tracked : Tracked c s) (h : Compiles c l d) (brace : Brace l) :
    Lost d (s.take l) := by
  obtain ⟨read, isRead, ahead⟩ := tracked.ahead
  have depth := ahead.length_eq
  rw [take_brace brace]
  intro r h'
  obtain ⟨top, closed, before, -⟩ := reading_closeClass.mp h'
  cases (show some read = some _ from isRead.symm.trans before)
  obtain ⟨rest, isComment, -⟩ := brace
  have same : d.stack = c.stack := by
    cases h with
    | comment => rfl
    | blank line | opens line | close line => simp [isComment] at line
    | value _ _ valued => simp [Valued, isComment] at valued
  have depth : r.stack.length = c.stack.length := by simpa using depth
  rw [same]
  exact depth.le

theorem ahead_writeConstant {name : Text} {top : Scope} {scopes : List Scope}
    (read : reading s = some r) (ahead : List.Forall₂ Ahead r.stack (top :: scopes))
    (inEnum : s.currentKeyword = some .enumKeyword) :
    ∃ class_ classes, r.stack = class_ :: classes ∧
      reading (s.writeConstant name) =
        some { r with
          stack := { class_ with constants := class_.constants ++ [(name, s.lineCount)] } :: classes } ∧
      Ahead class_ top ∧ List.Forall₂ Ahead classes scopes := by
  obtain ⟨stack, closed⟩ := r
  cases ahead with
  | cons first rest => exact ⟨_, _, rfl, (reading_writeConstant inEnum).mpr ⟨_, _, read, rfl⟩, first, rest⟩

theorem Tracked.step (tracked : Tracked c s) (h : Compiles c l d) (noBrace : ¬ Brace l) :
    Tracked d (s.take l) := by
  refine ⟨tracked.toLevel.step h noBrace, ?_⟩
  obtain ⟨r, read, ahead⟩ := tracked.ahead
  cases h with
  | blank isBlank =>
    rw [take_blank isBlank]
    exact ⟨r, read, ahead⟩
  | comment isComment =>
    rw [take_comment isComment noBrace]
    by_cases inEnum : s.currentKeyword = some .enumKeyword
    · cases stack : c.stack with
      | nil => simp [tracked.keyword, Compiler.inEnum, stack] at inEnum
      | cons top rest =>
        rw [stack, List.cons_append] at ahead
        obtain ⟨class_, classes, -, written, first, others⟩ :=
          ahead_writeConstant (s := s.next) read ahead inEnum
        exact ⟨_, written, .cons (by simp only [Ahead, List.length_append] at first ⊢; omega) others⟩
    · rw [writeConstant_outside (by exact inEnum)]
      exact ⟨r, read, ahead⟩
  | opens isOpens =>
    rw [take_opens isOpens]
    exact ⟨_, reading_openClass.mpr ⟨r, read, rfl⟩, .cons (Nat.le_refl 0) ahead⟩
  | value stack isEnum valued =>
    rw [take_value valued]
    have inEnum : s.currentKeyword = some .enumKeyword := by
      simp [tracked.keyword, Compiler.inEnum, stack, isEnum]
    rw [stack, List.cons_append] at ahead
    obtain ⟨class_, classes, -, written, first, others⟩ :=
      ahead_writeConstant (s := s.next) read ahead inEnum
    exact ⟨_, written, .cons (by simpa [Ahead] using first) others⟩
  | close isClose stack =>
    rw [take_close isClose]
    obtain ⟨classes, closed⟩ := r
    rw [stack, List.cons_append] at ahead
    cases ahead with
    | @cons class_ _ classes _ first others =>
      exact ⟨⟨classes, closed ++ [class_]⟩, reading_closeClass.mpr ⟨class_, closed, read,
        rfl⟩, others⟩

/-- What keeps the two together: no comment in an enumeration or with a brace in its first word, and
the line number is the value of the enumerator. -/
def Clean (c : Compiler) (l : HeaderLine) : Prop :=
  match l.line with
  | .comment _ => c.inEnum = false ∧ '}' ∉ l.firstWord
  | .enumerator _ _ => ∀ top ∈ c.stack.head?, ∀ last ∈ top.enumerators.getLast?, last.2 = c.line
  | _ => True

theorem clean_comment {rest : Text} (line : l.line = .comment rest) :
    Clean c l ↔ c.inEnum = false ∧ '}' ∉ l.firstWord := by
  rw [Clean, line]

theorem clean_value {name : Identifier} {value : Nat} {top : Scope} {rest : List Scope}
    (stack : c.stack = top :: rest) (valued : Valued c top.enumerators name value l.line) :
    Clean c l ↔ value = c.line + 1 := by
  unfold Clean
  rcases valued with ⟨line, -, value⟩ | ⟨comma, last, line, isLast, value⟩
  · simp [line, value]
  · rw [line]
    obtain ⟨previous, number⟩ := last
    simp [stack, value, Option.mem_def.mp isLast]

theorem toClass_cons {class_ : JavaClass} {classes : List JavaClass} {top : Scope}
    {rest : List Scope} :
    class_ :: classes = (top :: rest ++ [outer]).map Scope.toClass ↔
      class_ = top.toClass ∧ classes = (rest ++ [outer]).map Scope.toClass := by
  simp

/-- Together after a line, together before it. -/
theorem Tracked.back (tracked : Tracked c s) (h : Compiles c l d) (same : Same d (s.take l)) :
    Same c s ∧ Clean c l := by
  by_cases brace : Brace l
  · exact absurd same (tracked.brace h brace).not_same
  obtain ⟨r, read, ahead⟩ := tracked.ahead
  unfold Same at same ⊢
  cases h with
  | blank isBlank =>
    rw [take_blank isBlank] at same
    exact ⟨same, by rw [Clean, isBlank]; trivial⟩
  | comment isComment =>
    rw [take_comment isComment brace] at same
    have noBrace : '}' ∉ l.firstWord := fun mem => brace ⟨_, isComment, mem⟩
    by_cases inEnum : s.currentKeyword = some .enumKeyword
    · -- The comment has been written as a constant that no enumerator answers to.
      cases stack : c.stack with
      | nil => simp [tracked.keyword, Compiler.inEnum, stack] at inEnum
      | cons top rest =>
        rw [stack, List.cons_append] at ahead
        obtain ⟨class_, classes, -, written, first, -⟩ :=
          ahead_writeConstant (s := s.next) read ahead inEnum
        have both := congrArg Reader.stack (Option.some.inj (written.symm.trans same))
        dsimp only at both
        rw [stack, toClass_cons] at both
        have constants := congrArg (fun class_ => class_.constants.length) both.1
        simp only [Scope.toClass, List.length_append, List.length_singleton] at constants
        unfold Ahead at first
        omega
    · rw [writeConstant_outside (by exact inEnum)] at same
      exact ⟨same, (clean_comment isComment).mpr ⟨by simpa [tracked.keyword] using inEnum, noBrace⟩⟩
  | opens isOpens =>
    rw [take_opens isOpens] at same
    obtain ⟨⟨stack, closed⟩, before, equal⟩ := reading_openClass.mp same
    simp only [Reader.mk.injEq, List.cons_append, List.map_cons, List.cons.injEq] at equal
    obtain ⟨⟨-, rfl⟩, rfl⟩ := equal
    exact ⟨before, by rw [Clean, isOpens]; trivial⟩
  | value stack isEnum valued =>
    rw [take_value valued] at same
    have inEnum : s.currentKeyword = some .enumKeyword := by
      simp [tracked.keyword, Compiler.inEnum, stack, isEnum]
    obtain ⟨class_, classes, before, equal⟩ := (reading_writeConstant (s := s.next) inEnum).mp same
    obtain ⟨top, rest⟩ := toClass_cons.mp equal.symm
    obtain ⟨name, constants⟩ := JavaClass.mk.inj top
    obtain ⟨constants, last⟩ := List.append_inj' constants rfl
    obtain ⟨-, number⟩ := Prod.mk.inj (List.singleton_inj.mp last)
    refine ⟨?_, (clean_value stack valued).mpr ?_⟩
    · rw [stack, List.cons_append, List.map_cons, ← rest, Scope.toClass, ← name, ← constants]
      exact before
    · rw [← number, State.next, tracked.line]
  | close isClose stack =>
    rw [take_close isClose] at same
    obtain ⟨class_, closed, before, equal⟩ := reading_closeClass.mp same
    dsimp only at equal
    rw [List.map_append] at equal
    obtain ⟨isClosed, last⟩ := List.append_inj' equal rfl
    refine ⟨?_, by rw [Clean, isClose]; trivial⟩
    rw [stack, List.cons_append, List.map_cons, isClosed, List.singleton_inj.mp last]
    exact before

/-- Together before a clean line, together after it. -/
theorem Level.forward (level : Level c s) (h : Compiles c l d) (same : Same c s)
    (clean : Clean c l) :
    Same d (s.take l) := by
  unfold Same at same ⊢
  cases h with
  | blank isBlank =>
    rw [take_blank isBlank]
    exact same
  | comment isComment =>
    obtain ⟨outside, noBrace⟩ := (clean_comment isComment).mp clean
    have noBrace : ¬ Brace l := fun ⟨_, _, brace⟩ => noBrace brace
    have outside : s.currentKeyword ≠ some .enumKeyword := by simp [level.keyword, outside]
    rw [take_comment isComment noBrace, writeConstant_outside (by exact outside)]
    exact same
  | opens isOpens =>
    rw [take_opens isOpens]
    exact reading_openClass.mpr ⟨_, same, rfl⟩
  | value stack isEnum valued =>
    have inEnum : s.currentKeyword = some .enumKeyword := by
      simp [level.keyword, Compiler.inEnum, stack, isEnum]
    rw [take_value valued]
    rw [stack, List.cons_append, List.map_cons] at same
    refine (reading_writeConstant (s := s.next) inEnum).mpr ⟨_, _, same, ?_⟩
    rw [(clean_value stack valued).mp clean, State.next, level.line]
    rfl
  | close isClose stack =>
    rw [take_close isClose]
    rw [stack, List.cons_append, List.map_cons] at same
    exact reading_closeClass.mpr ⟨_, _, same, by simp⟩

theorem Clean.noBrace (clean : Clean c l) : ¬ Brace l := by
  rintro ⟨rest, isComment, brace⟩
  exact ((clean_comment isComment).mp clean).2 brace

/-- What has gone apart stays apart, so two that are together at the end have been together all the
time. -/
theorem together_before (apart : Lost c s ∨ Tracked c s) (h : run compileLine c header = some d)
    (same : Same d (header.foldl State.take s)) :
    Same c s ∧ EachStep compileLine Clean c header := by
  induction header generalizing c s with
  | nil =>
    cases h
    exact ⟨same, eachStep_nil⟩
  | cons l rest ih =>
    obtain ⟨next, step, remaining⟩ := run_cons.mp h
    have compiles := compileLine_compiles step
    rcases apart with lost | tracked
    · exact absurd (ih (.inl (lost.step compiles)) remaining same).1 (lost.step compiles).not_same
    · have apart : Lost next (s.take l) ∨ Tracked next (s.take l) := by
        by_cases brace : Brace l
        · exact .inl (tracked.brace compiles brace)
        · exact .inr (tracked.step compiles brace)
      obtain ⟨after, cleanRest⟩ := ih apart remaining same
      obtain ⟨before, clean⟩ := tracked.back compiles after
      exact ⟨before, (eachStep_cons step).mpr ⟨clean, cleanRest⟩⟩

theorem together_after (level : Level c s) (h : run compileLine c header = some d) (same : Same c s)
    (clean : EachStep compileLine Clean c header) : Same d (header.foldl State.take s) := by
  induction header generalizing c s with
  | nil =>
    cases h
    exact same
  | cons l rest ih =>
    obtain ⟨next, step, remaining⟩ := run_cons.mp h
    have compiles := compileLine_compiles step
    obtain ⟨first, clean⟩ := (eachStep_cons step).mp clean
    exact ih (level.step compiles first.noBrace) remaining (level.forward compiles same first) clean

/-! ### The layout of a header -/

/-- Where a line stands: not in an enumeration, in one without enumerators, right below an
enumerator, or further below. -/
inductive Layout where
  | outside
  | opened
  | below
  | gap
  deriving DecidableEq

/-- The next place, for a line that the tool and the compiler understand alike. -/
def layoutLine (layout : Layout) (l : HeaderLine) : Option Layout :=
  match l.line, layout with
  | .opens .namespaceKeyword _, _ => some .outside
  | .opens .enumKeyword _, _ => some .opened
  | .first _, _ => some .below
  | .enumerator _ _, .gap => none
  | .enumerator _ _, _ => some .below
  | .close _, _ => some .outside
  | .blank, .below => some .gap
  | .blank, _ => some layout
  | .comment _, .outside => if '}' ∈ l.firstWord then none else some .outside
  | .comment _, _ => none

def Neat (header : List HeaderLine) : Prop := (run layoutLine .outside header).isSome = true

instance : Decidable (Neat header) := inferInstanceAs (Decidable (_ = true))

/-- The place, as far as the compiler knows it: the enumerator right above has the number of its
line. -/
def Compiler.layout (c : Compiler) : Layout :=
  match c.stack.head? with
  | none => .outside
  | some top =>
    if top.isEnum then
      match top.enumerators.getLast? with
      | none => .opened
      | some last => if last.2 = c.line then .below else .gap
    else .outside

/-- Only the innermost scope is an enumeration, and its values do not exceed the number of lines. -/
structure Bounded (c : Compiler) : Prop where
  nested : ∀ scope ∈ c.stack.tail, scope.isEnum = false
  values : ∀ top ∈ c.stack.head?, ∀ last ∈ top.enumerators.getLast?, top.isEnum = true → last.2 ≤ c.line

theorem layout_outside : c.layout = .outside ↔ c.inEnum = false := by
  unfold Compiler.layout Compiler.inEnum
  cases c.stack.head? with
  | none => simp
  | some top =>
    cases isEnum : top.isEnum with
    | false => simp [isEnum]
    | true =>
      cases isLast : top.enumerators.getLast? with
      | none => simp [isEnum, isLast]
      | some last => by_cases number : last.2 = c.line <;> simp [isEnum, isLast, number]

/-- The place in an enumeration. -/
theorem layout_enum {top : Scope} {rest : List Scope} (stack : c.stack = top :: rest)
    (isEnum : top.isEnum = true) :
    c.layout =
      match top.enumerators.getLast? with
      | none => .opened
      | some last => if last.2 = c.line then .below else .gap := by
  simp [Compiler.layout, stack, isEnum]

theorem layout_line (bounded : Bounded c) :
    Compiler.layout { c with line := c.line + 1 } =
      if c.layout = .below then .gap else c.layout := by
  have values := bounded.values
  unfold Compiler.layout
  cases head : c.stack.head? with
  | none => simp
  | some top =>
    cases isEnum : top.isEnum with
    | false => simp [isEnum]
    | true =>
      cases isLast : top.enumerators.getLast? with
      | none => simp [isEnum, isLast]
      | some last =>
        have bound := values top head last isLast isEnum
        have past : last.2 ≠ c.line + 1 := by omega
        by_cases number : last.2 = c.line <;> simp [isEnum, isLast, number, past]

theorem nested_head {scopes : List Scope} (nested : ∀ scope ∈ scopes, scope.isEnum = false)
    {line : Nat} {closed : List Scope} :
    Compiler.inEnum { line := line, stack := scopes, closed := closed } = false := by
  cases scopes with
  | nil => rfl
  | cons top rest => simpa [Compiler.inEnum] using nested top List.mem_cons_self

theorem Bounded.step (bounded : Bounded c) (h : Compiles c l d) : Bounded d := by
  obtain ⟨nested, values⟩ := bounded
  cases h with
  | blank | comment =>
    exact ⟨nested, fun top head last isLast isEnum => Nat.le_succ_of_le (values top head last isLast isEnum)⟩
  | opens _ outside => exact ⟨not_enum outside nested, by simp⟩
  | value stack isEnum valued =>
    refine ⟨by simpa [stack] using nested, ?_⟩
    rintro top ⟨rfl⟩ last isLast -
    rw [List.getLast?_append] at isLast
    obtain rfl : _ = last := by simpa using isLast
    rcases valued with ⟨-, -, rfl⟩ | ⟨comma, before, -, isBefore, rfl⟩
    · exact Nat.le_refl _
    · exact Nat.succ_le_succ (values _ (by rw [stack]; rfl) before isBefore isEnum)
  | close _ stack =>
    rw [stack, List.tail_cons] at nested
    refine ⟨fun scope mem => nested scope (List.mem_of_mem_tail mem),
      fun top head last isLast isEnum => ?_⟩
    rw [nested top (List.mem_of_mem_head? head)] at isEnum
    cases isEnum

theorem layoutLine_layout (bounded : Bounded c) (h : Compiles c l d) :
    (Clean c l → layoutLine c.layout l = some d.layout) ∧
      (¬ Clean c l → layoutLine c.layout l = none) := by
  cases h with
  | blank isBlank =>
    refine ⟨fun _ => ?_, fun unclean => absurd (by rw [Clean, isBlank]; trivial) unclean⟩
    unfold layoutLine
    rw [layout_line bounded, isBlank]
    cases c.layout <;> rfl
  | comment isComment =>
    unfold layoutLine
    rw [clean_comment isComment, ← layout_outside, isComment]
    refine ⟨fun ⟨outside, noBrace⟩ => ?_, fun unclean => ?_⟩
    · rw [layout_line bounded, outside]
      exact if_neg noBrace
    · cases place : c.layout with
      | outside => exact if_pos (by_contra fun noBrace => unclean ⟨place, noBrace⟩)
      | opened | below | gap => rfl
  | @opens keyword name isOpens =>
    refine ⟨fun _ => ?_, fun unclean => absurd (by rw [Clean, isOpens]; trivial) unclean⟩
    unfold layoutLine
    rw [isOpens]
    cases keyword <;> rfl
  | value stack isEnum valued =>
    unfold layoutLine
    rw [clean_value stack valued]
    have place := layout_enum stack isEnum
    rcases valued with ⟨line, -, rfl⟩ | ⟨comma, last, line, isLast, rfl⟩
    · rw [line]
      simp [Compiler.layout, isEnum]
    · rw [Option.mem_def.mp isLast] at place
      rw [line, place]
      by_cases number : last.2 = c.line <;> simp [Compiler.layout, isEnum, number]
  | close isClose stack =>
    refine ⟨fun _ => ?_, fun unclean => absurd (by rw [Clean, isClose]; trivial) unclean⟩
    have nested := bounded.nested
    rw [stack, List.tail_cons] at nested
    unfold layoutLine
    rw [isClose, layout_outside.mpr (nested_head nested)]

/-- A header is neat exactly when every line is clean. -/
theorem neat_iff_clean (bounded : Bounded c) (h : run compileLine c header = some d) :
    (run layoutLine c.layout header).isSome = true ↔ EachStep compileLine Clean c header := by
  induction header generalizing c with
  | nil => simp [run, eachStep_nil]
  | cons l rest ih =>
    obtain ⟨next, step, remaining⟩ := run_cons.mp h
    have compiles := compileLine_compiles step
    obtain ⟨goes, stops⟩ := layoutLine_layout bounded compiles
    rw [eachStep_cons step, run]
    by_cases clean : Clean c l
    · rw [goes clean, Option.bind_some, ih (bounded.step compiles) remaining]
      simp [clean]
    · rw [stops clean]
      simp [clean]

/-! ### The whole file -/

theorem text_oneLine (l : HeaderLine) : '\n' ∉ l.text := by
  have blank : ∀ pad : Text, pad.all isBlank = true → '\n' ∉ pad := by
    intro pad blank mem
    exact absurd (blank_separator blank mem) (by decide)
  simp only [HeaderLine.text, List.mem_append, not_or]
  exact ⟨blank _ l.indentBlank, l.oneLine, blank _ l.trailBlank⟩

theorem translate_lines :
    run translateLine s (header.map HeaderLine.text) = some (header.foldl State.take s) := by
  induction header generalizing s with
  | nil => rfl
  | cons l rest ih => rw [List.map_cons, run, translateLine_text, Option.bind_some, ih, List.foldl_cons]

theorem cpp2java_headerText :
    cpp2java (headerText header) = some ((header.foldl State.take {}).javaFile ++ [.close 0]) := by
  cases header with
  | nil => decide
  | cons l rest =>
    have oneLine : ∀ text ∈ (l :: rest).map HeaderLine.text, '\n' ∉ text := by
      intro text mem
      obtain ⟨line, -, rfl⟩ := List.mem_map.mp mem
      exact text_oneLine line
    rw [cpp2java, headerText, List.splitOn_intercalate '\n' oneLine (by simp), translate_lines]
    rfl

/-- The Java file has balanced braces, and its classes are the scopes of the header with their
enumerators and values, inside of `LogicDefine`. -/
def Agrees (header : List HeaderLine) (compiled : Compiler) : Prop :=
  (cpp2java (headerText header)).bind javaClasses = some ((compiled.closed ++ [outer]).map Scope.toClass)

instance : Decidable (Agrees header d) := inferInstanceAs (Decidable (_ = _))

theorem agrees_iff_same (complete : d.stack = []) :
    Agrees header d ↔ Same d (header.foldl State.take {}) := by
  unfold Agrees Same javaClasses
  rw [cpp2java_headerText, Option.bind_some, Option.bind_eq_some_iff, complete]
  constructor
  · rintro ⟨⟨stack, closed⟩, read, result⟩
    split_ifs at result with balanced
    obtain ⟨⟨open_, before⟩, isBefore, close⟩ := reading_write.mp read
    cases open_ with
    | nil => cases close
    | cons top rest =>
      cases close
      dsimp only at balanced result
      rw [List.map_append] at result
      obtain ⟨isClosed, isTop⟩ := List.append_inj' (Option.some.inj result) rfl
      rw [isBefore, balanced, isClosed, isTop]
      rfl
  · intro same
    exact ⟨⟨[], _⟩, reading_write.mpr ⟨_, same, rfl⟩, by simp⟩

def nameA : Identifier := ⟨['a'], by decide, by decide, by decide⟩

def nameB : Identifier := ⟨['b'], by decide, by decide, by decide⟩

def nameE : Identifier := ⟨['E'], by decide, by decide, by decide⟩

def enumOpen : HeaderLine := { line := .opens .enumKeyword nameE, oneLine := by decide }

def firstA : HeaderLine :=
  { indent := [' ', ' '], line := .first nameA, indentBlank := by decide, oneLine := by decide }

def lastB : HeaderLine :=
  { indent := [' ', ' '], line := .enumerator nameB false, indentBlank := by decide, oneLine := by decide }

def enumClose : HeaderLine := { line := .close [';'], oneLine := by decide }

def blankLine : HeaderLine := { line := .blank, oneLine := by decide }

def remark : HeaderLine := { line := .comment ['x'], oneLine := by decide }

def braceRemark : HeaderLine := { line := .comment ['}'], oneLine := by decide }

def spaced : List HeaderLine := [enumOpen, firstA, blankLine, lastB, enumClose]

def remarked : List HeaderLine := [enumOpen, remark, firstA, enumClose]

def braced : List HeaderLine := [braceRemark, enumOpen, firstA, enumClose]

end Kingkong.Cpp2Java
