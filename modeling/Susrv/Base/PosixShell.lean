import Mathlib.Data.List.TakeWhile
import Mathlib.Algebra.Order.BigOperators.Group.List
import Mathlib.Algebra.Order.Group.Nat
import Mathlib.Tactic.IntervalCases

/-!
# One line of the POSIX shell command language

Token recognition, the expansions of a word and the reading of the resulting
fields as a utility with options and operands, for a line that is one simple
command without assignments and redirections.  A line that is anything else has
no fields.

The parts of the result that the line does not determine are in `Env`: the home
directories, the existing pathnames, the locale, and all that `$` and backquotes
stand for.  `reads_iff` says which arguments every environment leaves alone.
-/

namespace Susrv.Base.PosixShell

abbrev Text := List Char

/-! ## Token recognition -/

def backslash : Char := Char.ofNat 92

def singleQuote : Char := Char.ofNat 39

def doubleQuote : Char := Char.ofNat 34

def backquote : Char := Char.ofNat 96

def newline : Char := Char.ofNat 10

/-- The blanks of the POSIX locale. -/
def isBlank (c : Char) : Bool := c = ' ' || c = Char.ofNat 9

/-- The characters that control and redirection operators are made of. -/
def isOperator (c : Char) : Bool :=
  [newline, '&', '|', ';', '<', '>', '(', ')'].contains c

/-- The characters that begin an expansion inside double quotes too. -/
def isExpansion (c : Char) : Bool := c = '$' || c = backquote

/-- A character of a word, which quoting has made literal or not. -/
structure Piece where
  char : Char
  quoted : Bool
  deriving DecidableEq, Repr

abbrev Word := List Piece

/-- Quote removal: the quotes themselves are not pieces. -/
def text (w : Word) : Text := w.map Piece.char

def unquoted (t : Text) : Word := t.map (⟨·, false⟩)

inductive Token
  | word (w : Word)
  | operator (c : Char)
  deriving DecidableEq, Repr

inductive Mode
  | plain
  | comment
  /-- Behind a backslash. -/
  | escaped
  | single
  | double
  | doubleEscaped
  /-- From an unquoted or double-quoted `$` or backquote on: what follows may be
  part of an expression, and is not tokenised. -/
  | expansion
  deriving DecidableEq, Repr

structure Lexer where
  mode : Mode
  tokens : List Token
  /-- The word that has been begun, which quotes can leave empty. -/
  current : Option Word
  deriving DecidableEq, Repr

namespace Lexer

def init : Lexer := ⟨.plain, [], none⟩

/-- The characters of the word that has been begun. -/
def pieces (s : Lexer) : Word := s.current.getD []

def push (s : Lexer) (mode : Mode) (c : Char) (quoted : Bool) : Lexer :=
  { s with mode, current := some (s.pieces ++ [⟨c, quoted⟩]) }

/-- A quote begins a word, or goes on with one. -/
def quote (s : Lexer) (mode : Mode) : Lexer := { s with mode, current := some s.pieces }

def delimit (s : Lexer) : Lexer :=
  { s with tokens := s.tokens ++ s.current.toList.map .word, current := none }

def emit (s : Lexer) (c : Char) : Lexer :=
  { s with mode := .plain, tokens := s.tokens ++ [.operator c] }

def stepPlain (s : Lexer) (c : Char) : Lexer :=
  if c = backslash then { s with mode := .escaped }
  else if c = singleQuote then s.quote .single
  else if c = doubleQuote then s.quote .double
  else if isExpansion c then { s with mode := .expansion }
  else if isBlank c then s.delimit
  else if isOperator c then s.delimit.emit c
  else if c = '#' ∧ s.current = none then { s with mode := .comment }
  else s.push .plain c false

/-- A backslash before a newline is removed with it, and between double quotes a
backslash stays before a character that has no meaning there. -/
def step (s : Lexer) (c : Char) : Lexer :=
  match s.mode with
  | .plain => s.stepPlain c
  | .comment => if c = newline then s.emit c else s
  | .escaped => if c = newline then { s with mode := .plain } else s.push .plain c true
  | .single => if c = singleQuote then { s with mode := .plain } else s.push .single c true
  | .double =>
      if c = doubleQuote then { s with mode := .plain }
      else if c = backslash then { s with mode := .doubleEscaped }
      else if isExpansion c then { s with mode := .expansion }
      else s.push .double c true
  | .doubleEscaped =>
      if c = newline then { s with mode := .double }
      else if isExpansion c ∨ c = doubleQuote ∨ c = backslash then s.push .double c true
      else (s.push .double backslash true).push .double c true
  | .expansion => s

def run (s : Lexer) (t : Text) : Lexer := t.foldl step s

end Lexer

/-- The words of a complete line that is one simple command. -/
def simpleWords : List Token → Option (List Word)
  | [] => none
  | [.operator c] => if c = newline then some [] else none
  | .operator _ :: _ :: _ => none
  | .word w :: tokens => (simpleWords tokens).map (w :: ·)

/-! ## Expansions -/

/-- What patterns are made of; the body of a bracket expression is what follows its `[`. -/
inductive Item
  | literal (c : Char)
  | one
  | any
  | bracket (body : Text)
  deriving DecidableEq, Repr

def Item.isLiteral : Item → Bool
  | .literal _ => true
  | _ => false

/-- The text of the pattern. -/
def Item.source : Item → Text
  | .literal c => [c]
  | .one => ['?']
  | .any => ['*']
  | .bracket body => '[' :: body

/-- How many pieces there are up to the `]` of a bracket expression, that one included.
Inside `[:`, `[.` and `[=`, whose delimiter is `inner`, a `]` is a member; where they
are not finished they are members themselves. -/
def closing : (inner : Option Char) → Word → Option Nat
  | _, [] => none
  | none, [p] => if p.char = ']' ∧ !p.quoted then some 1 else none
  | some _, [_] => none
  | some d, p :: q :: w =>
      if p.char = '/' then none
      else if p.char = d ∧ q.char = ']' then (closing none w).map (· + 2)
      else (closing (some d) (q :: w)).map (· + 1)
  | none, p :: q :: w =>
      if p.char = '/' then none
      else if p.char = ']' ∧ !p.quoted then some 1
      else if p.char = '[' ∧ !p.quoted ∧ [':', '.', '='].contains q.char then
        ((closing (some q.char) w).map (· + 2)).or ((closing none (q :: w)).map (· + 1))
      else (closing none (q :: w)).map (· + 1)

/-- How many pieces at the start of a bracket expression cannot close it. -/
def opening : Word → Nat
  | ⟨'!', false⟩ :: ⟨']', false⟩ :: _ => 2
  | ⟨'!', false⟩ :: _ => 1
  | ⟨']', false⟩ :: _ => 1
  | _ => 0

/-- The length of the bracket expression that an unquoted `[` before `w` begins. -/
def bracketLength (w : Word) : Option Nat := (closing none (w.drop (opening w))).map (· + opening w)

/-- The pattern that a word is, behind its first `skip` pieces. -/
def patternFrom : (skip : Nat) → Word → List Item
  | _, [] => []
  | skip + 1, _ :: w => patternFrom skip w
  | 0, p :: w =>
      if p.quoted then .literal p.char :: patternFrom 0 w
      else if p.char = '*' then .any :: patternFrom 0 w
      else if p.char = '?' then .one :: patternFrom 0 w
      else if p.char = '[' then
        match bracketLength w with
        | some n => .bracket (text (w.take n)) :: patternFrom n w
        | none => .literal p.char :: patternFrom 0 w
      else .literal p.char :: patternFrom 0 w

def pattern (w : Word) : List Item := patternFrom 0 w

/-- What the expansions of a line depend on besides the line. -/
structure Env where
  /-- The home directory of a user, and that of the shell for the empty name. -/
  home : Text → Option Text
  /-- The existing pathnames, in collating order. -/
  files : List Text
  /-- The members of a bracket expression, by its body. -/
  member : Text → Char → Bool
  /-- The fields of a line with a `$` or a backquote that is not quoted literally, if it
  is one simple command.  A `$` that begins no expression is unspecified. -/
  expand : Text → Option (List Text)

/-- A slash, and a period at the `start` of a component, are only matched literally. -/
def wild (start : Bool) (c : Char) : Bool := c ≠ '/' && !(start && c = '.')

/-- Whether a pathname, or from the middle of one on, matches a pattern. -/
def admits (env : Env) : (start : Bool) → List Item → Text → Bool
  | _, [], t => t.isEmpty
  | start, .any :: items, t =>
      !(start && t.head? = some '.') && (List.range (t.length + 1)).any fun n =>
        (t.take n).all (· ≠ '/') && admits env false items (t.drop n)
  | _, .literal c :: items, d :: t => c = d && admits env (c = '/') items t
  | start, .one :: items, d :: t => wild start d && admits env false items t
  | start, .bracket body :: items, d :: t =>
      wild start d && env.member body d && admits env false items t
  | _, _ :: _, [] => false

/-- Pathname expansion and quote removal. -/
def pathnames (env : Env) (w : Word) : List Text :=
  if (pattern w).all Item.isLiteral then [text w]
  else
    let found := env.files.filter (admits env true (pattern w))
    if found = [] then [text w] else found

/-- Tilde expansion; the directory is not subject to pathname expansion. -/
def tilde (env : Env) : Word → Word
  | ⟨'~', false⟩ :: w =>
      let login := w.takeWhile fun p => p.char ≠ '/' || p.quoted
      if login.any Piece.quoted then ⟨'~', false⟩ :: w
      else
        match env.home (text login) with
        | some dir => dir.map (⟨·, true⟩) ++ w.drop login.length
        | none => ⟨'~', false⟩ :: w
  | w => w

def fields (env : Env) (w : Word) : List Text := pathnames env (tilde env w)

/-- The fields of a line, its newline included, if it is one simple command. -/
def argv (env : Env) (line : Text) : Option (List Text) :=
  let s := Lexer.init.run line
  if s.mode = .expansion then env.expand line
  else if s.mode = .plain ∧ s.current = none then
    (simpleWords s.tokens).map (·.flatMap (fields env))
  else none

/-! ## Utilities -/

/-- A utility as its conventional argument syntax presents it. -/
structure Invocation where
  utility : Text
  options : List Text
  operands : List Text
  deriving DecidableEq, Repr

def isOption (arg : Text) : Bool := arg.head? = some '-' && arg ≠ ['-']

/-- The options precede the operands, and `--` ends them.  No option takes an argument. -/
def arguments : List Text → List Text × List Text
  | [] => ([], [])
  | arg :: args =>
      if arg = ['-', '-'] then ([], args)
      else if isOption arg then (arg :: (arguments args).1, (arguments args).2)
      else ([], arg :: args)

/-- The last argument is an operand if it does not look like an option. -/
theorem arguments_singleton_iff (arg : Text) :
    arguments [arg] = ([], [arg]) ↔ isOption arg = false := by
  simp only [arguments]
  split_ifs with hend hoption
  · simp [hend, isOption]
  · simp [hoption]
  · simp [hoption]

def invocation : List Text → Option Invocation
  | [] => none
  | utility :: args => some ⟨utility, (arguments args).1, (arguments args).2⟩

/-- The one utility that a line runs. -/
def reads (env : Env) (line : Text) : Option Invocation := (argv env line).bind invocation

/-! ## Arguments that stay as they are -/

def isOrdinary (c : Char) : Bool :=
  !(isBlank c || isOperator c || isExpansion c || c = backslash || c = singleQuote ||
    c = doubleQuote)

/-- The text is one token, all of it unquoted. -/
structure IsWord (t : Text) : Prop where
  nonempty : t ≠ []
  ordinary : ∀ c ∈ t, isOrdinary c = true
  noComment : t.head? ≠ some '#'

/-- The text is one token, and no expansion applies to it. -/
structure Plain (t : Text) : Prop extends IsWord t where
  noTilde : t.head? ≠ some '~'
  noPattern : (pattern (unquoted t)).all Item.isLiteral = true

/-- Arguments written behind one another and a last one, as they are. -/
def commandLine (args : List Text) (last : Text) : Text :=
  args.flatMap (· ++ [' ']) ++ last ++ [newline]

/-! ### Tokens -/

@[simp] theorem text_unquoted (t : Text) : text (unquoted t) = t := by
  simp [text, unquoted, Function.comp_def]

@[simp] theorem Lexer.run_nil (s : Lexer) : s.run [] = s := rfl

@[simp] theorem Lexer.run_cons (s : Lexer) (c : Char) (t : Text) :
    s.run (c :: t) = (s.step c).run t := rfl

theorem Lexer.run_append (s : Lexer) (t u : Text) : s.run (t ++ u) = (s.run t).run u :=
  List.foldl_append

theorem Lexer.stepPlain_ordinary {s : Lexer} {c : Char} (hc : isOrdinary c = true)
    (hword : s.current ≠ none ∨ c ≠ '#') : s.stepPlain c = s.push .plain c false := by
  simp only [isOrdinary, Bool.not_eq_true', Bool.or_eq_false_iff, decide_eq_false_iff_not] at hc
  obtain ⟨⟨⟨⟨⟨hblank, hoperator⟩, hexpansion⟩, hbackslash⟩, hsingle⟩, hdouble⟩ := hc
  have hcomment : ¬ (c = '#' ∧ s.current = none) := by
    rintro ⟨hhash, hnone⟩
    exact hword.elim (absurd hnone) (absurd hhash)
  simp [stepPlain, hblank, hoperator, hexpansion, hbackslash, hsingle, hdouble, hcomment]

/-- Ordinary characters go on with a word that has been begun. -/
theorem Lexer.run_ordinary {t : Text} (ht : ∀ c ∈ t, isOrdinary c = true) (tokens : List Token)
    (w : Word) :
    (Lexer.mk .plain tokens (some w)).run t = ⟨.plain, tokens, some (w ++ unquoted t)⟩ := by
  induction t generalizing w with
  | nil => simp [unquoted]
  | cons c t ih =>
      have hstep : (Lexer.mk .plain tokens (some w)).step c =
          ⟨.plain, tokens, some (w ++ [⟨c, false⟩])⟩ :=
        stepPlain_ordinary (ht c (by simp)) (.inl (by simp))
      rw [run_cons, hstep, ih fun d hd => ht d (by simp [hd])]
      simp [unquoted]

theorem Lexer.run_isWord {t : Text} (ht : IsWord t) (tokens : List Token) :
    (Lexer.mk .plain tokens none).run t = ⟨.plain, tokens, some (unquoted t)⟩ := by
  obtain ⟨c, u, rfl⟩ := List.exists_cons_of_ne_nil ht.nonempty
  have hhash : c ≠ '#' := by simpa using ht.noComment
  have hstep : (Lexer.mk .plain tokens none).step c = ⟨.plain, tokens, some [⟨c, false⟩]⟩ :=
    stepPlain_ordinary (ht.ordinary c (by simp)) (.inr hhash)
  rw [run_cons, hstep, run_ordinary fun d hd => ht.ordinary d (by simp [hd])]
  simp [unquoted]

/-- Words that are each followed by a blank are tokens. -/
theorem Lexer.run_words {args : List Text} (hargs : ∀ t ∈ args, IsWord t) (tokens : List Token)
    (rest : Text) :
    (Lexer.mk .plain tokens none).run (args.flatMap (· ++ [' ']) ++ rest) =
      (Lexer.mk .plain (tokens ++ args.map fun t => .word (unquoted t)) none).run rest := by
  induction args generalizing tokens with
  | nil => simp
  | cons t args ih =>
      have hblank : (Lexer.mk .plain tokens (some (unquoted t))).step ' ' =
          ⟨.plain, tokens ++ [.word (unquoted t)], none⟩ := rfl
      rw [List.flatMap_cons, List.append_assoc, List.append_assoc, run_append,
        run_isWord (hargs t (by simp)), List.singleton_append, run_cons, hblank,
        ih fun u hu => hargs u (by simp [hu])]
      simp

theorem simpleWords_words (ws : List Word) :
    simpleWords (ws.map .word ++ [.operator newline]) = some ws := by
  induction ws with
  | nil => rfl
  | cons w ws ih =>
      rw [List.map_cons, List.cons_append, simpleWords, ih, Option.map_some]

theorem argv_of_run {line : Text} {ws : List Word} (env : Env)
    (h : Lexer.init.run line = ⟨.plain, ws.map .word ++ [.operator newline], none⟩) :
    argv env line = some (ws.flatMap (fields env)) := by
  simp only [argv, h, simpleWords_words, reduceCtorEq, if_false, and_self, if_true,
    Option.map_some]

/-- Without quoting, words reach the expansions as they are written. -/
theorem argv_of_isWord {args : List Text} {last : Text} (env : Env)
    (hargs : ∀ t ∈ args, IsWord t) (hlast : IsWord last) :
    argv env (commandLine args last) =
      some ((args ++ [last]).flatMap fun t => fields env (unquoted t)) := by
  rw [← List.flatMap_map unquoted (fields env)]
  apply argv_of_run
  rw [commandLine, List.append_assoc, Lexer.init, Lexer.run_words hargs, Lexer.run_append,
    Lexer.run_isWord hlast, List.map_append, List.map_append, List.map_map]
  rfl

theorem argv_of_empty_last {args : List Text} (env : Env) (hargs : ∀ t ∈ args, IsWord t) :
    argv env (commandLine args []) = some (args.flatMap fun t => fields env (unquoted t)) := by
  rw [← List.flatMap_map unquoted (fields env)]
  apply argv_of_run
  rw [commandLine, List.append_nil, Lexer.init, Lexer.run_words hargs, List.nil_append,
    List.map_map]
  change Lexer.mk .plain (args.map (fun t => Token.word (unquoted t)) ++ [] ++
    [.operator newline]) none = _
  rw [List.append_nil]
  rfl

/-! ### What quoting costs -/

/-- The number of characters in the words. -/
def weight : List Token → Nat
  | [] => 0
  | .word w :: tokens => w.length + weight tokens
  | .operator _ :: tokens => weight tokens

@[simp] theorem weight_append (tokens tokens' : List Token) :
    weight (tokens ++ tokens') = weight tokens + weight tokens' := by
  induction tokens with
  | nil => simp [weight]
  | cons token tokens ih =>
      cases token with
      | word w => simp [weight, ih, Nat.add_assoc]
      | operator c => simp [weight, ih]

theorem weight_map_word (ws : List Word) :
    weight (ws.map .word) = (ws.map List.length).sum := by
  induction ws with
  | nil => rfl
  | cons w ws ih => simp [weight, ih]

theorem weight_of_simpleWords {tokens : List Token} {ws : List Word}
    (h : simpleWords tokens = some ws) : weight tokens = (ws.map List.length).sum := by
  induction tokens generalizing ws with
  | nil => simp [simpleWords] at h
  | cons token tokens ih =>
      cases token with
      | word w =>
          rw [simpleWords, Option.map_eq_some_iff] at h
          obtain ⟨vs, hvs, rfl⟩ := h
          rw [weight, ih hvs, List.map_cons, List.sum_cons]
      | operator c =>
          cases tokens with
          | nil =>
              simp only [simpleWords] at h
              split at h
              · cases h
                rfl
              · cases h
          | cons _ _ => simp [simpleWords] at h

namespace Lexer

/-- The number of characters kept so far. -/
def kept (s : Lexer) : Nat := weight s.tokens + s.pieces.length

@[simp] theorem kept_push (s : Lexer) (mode : Mode) (c : Char) (quoted : Bool) :
    (s.push mode c quoted).kept = s.kept + 1 := by
  simp [kept, push, pieces, Nat.add_assoc]

@[simp] theorem kept_quote (s : Lexer) (mode : Mode) : (s.quote mode).kept = s.kept := rfl

@[simp] theorem kept_mode (s : Lexer) (mode : Mode) : { s with mode := mode }.kept = s.kept := rfl

@[simp] theorem kept_delimit (s : Lexer) : s.delimit.kept = s.kept := by
  cases h : s.current <;> simp [kept, delimit, pieces, h, weight]

@[simp] theorem kept_emit (s : Lexer) (c : Char) : (s.emit c).kept = s.kept := by
  simp [kept, emit, pieces, weight]

@[simp] theorem mode_delimit (s : Lexer) : s.delimit.mode = s.mode := rfl

@[simp] theorem mode_push (s : Lexer) (mode : Mode) (c : Char) (quoted : Bool) :
    (s.push mode c quoted).mode = mode := rfl

@[simp] theorem mode_quote (s : Lexer) (mode : Mode) : (s.quote mode).mode = mode := rfl

@[simp] theorem mode_emit (s : Lexer) (c : Char) : (s.emit c).mode = .plain := rfl

/-- What a step may keep besides its own character. -/
def pending : Mode → Nat
  | .doubleEscaped => 1
  | _ => 0

def size (s : Lexer) : Nat := s.kept + pending s.mode

theorem pending_stepPlain {s : Lexer} (hmode : s.mode = .plain) (c : Char) :
    pending (s.stepPlain c).mode = 0 := by
  unfold stepPlain
  split_ifs <;> simp [pending, hmode]

theorem kept_stepPlain_le (s : Lexer) (c : Char) : (s.stepPlain c).kept ≤ s.kept + 1 := by
  unfold stepPlain
  split_ifs <;> simp

/-- A character that is not ordinary is not kept, nor is one that begins a comment. -/
theorem kept_stepPlain_of_lost {s : Lexer} {c : Char}
    (hc : isOrdinary c = false ∨ (c = '#' ∧ s.current = none)) :
    (s.stepPlain c).kept = s.kept := by
  unfold stepPlain
  split_ifs with h₁ h₂ h₃ h₄ h₅ h₆ h₇
  case neg =>
    rcases hc with hc | hc
    · simp [isOrdinary, h₁, h₂, h₃, h₄, h₅, h₆] at hc
    · exact absurd hc h₇
  all_goals simp

theorem size_step_le (s : Lexer) (c : Char) : (s.step c).size ≤ s.size + 1 := by
  unfold step size
  cases hmode : s.mode with
  | plain =>
      have hkept := kept_stepPlain_le s c
      rw [pending_stepPlain hmode]
      simpa [pending] using hkept
  | comment => by_cases hc : c = newline <;> simp [hc, hmode, pending]
  | escaped => by_cases hc : c = newline <;> simp [hc, pending]
  | single => by_cases hc : c = singleQuote <;> simp [hc, pending]
  | double =>
      simp only
      split_ifs <;> simp [pending]
  | doubleEscaped =>
      simp only
      split_ifs
      · simp only [kept_mode, pending]
        omega
      · simp [pending]
      · simp [pending]
  | expansion => simp [hmode, pending]

theorem size_step_of_lost {s : Lexer} {c : Char} (hmode : s.mode = .plain)
    (hc : isOrdinary c = false ∨ (c = '#' ∧ s.current = none)) : (s.step c).size = s.size := by
  have hstep : s.step c = s.stepPlain c := by simp only [step, hmode]
  have hpending : pending s.mode = 0 := by rw [hmode]; rfl
  rw [hstep, size, size, pending_stepPlain hmode, kept_stepPlain_of_lost hc, hpending]

theorem size_run_le (s : Lexer) (t : Text) : (s.run t).size ≤ s.size + t.length := by
  induction t generalizing s with
  | nil => simp
  | cons c t ih =>
      have hstep := size_step_le s c
      have hrest := ih (s.step c)
      rw [run_cons, List.length_cons]
      omega

/-- The character that is not kept counts for nothing. -/
theorem size_run_of_lost {u v : Text} {c : Char} (hu : ∀ d ∈ u, isOrdinary d = true)
    (huHead : u.head? ≠ some '#') (hc : isOrdinary c = false ∨ (c = '#' ∧ u = []))
    (tokens : List Token) :
    ((Lexer.mk .plain tokens none).run (u ++ c :: v)).size ≤
      weight tokens + u.length + v.length := by
  set before := (Lexer.mk .plain tokens none).run u with hbefore
  have hmode : before.mode = .plain ∧ (u = [] → before.current = none) := by
    by_cases hnil : u = []
    · rw [hbefore, hnil]
      exact ⟨rfl, fun _ => rfl⟩
    · rw [hbefore, run_isWord ⟨hnil, hu, huHead⟩]
      exact ⟨rfl, fun hu => absurd hu hnil⟩
  have hstep : (before.step c).size = before.size :=
    size_step_of_lost hmode.1 (hc.imp_right fun hhash => ⟨hhash.1, hmode.2 hhash.2⟩)
  have hfirst := size_run_le (Lexer.mk .plain tokens none) u
  have hrest := size_run_le (before.step c) v
  have hstart : (Lexer.mk .plain tokens none).size = weight tokens := rfl
  rw [← hbefore] at hfirst
  rw [run_append, run_cons, ← hbefore]
  omega

/-- A newline only ends a word. -/
theorem weight_step_newline_le (s : Lexer) : weight (s.step newline).tokens ≤ s.size := by
  have hplain : s.stepPlain newline = s.delimit.emit newline := by
    simp [stepPlain, newline, backslash, singleQuote, doubleQuote, isExpansion, backquote,
      isBlank, isOperator]
  have hemit : ∀ u : Lexer, weight (u.emit newline).tokens = weight u.tokens := by
    simp [emit, weight]
  have hkept : weight s.tokens ≤ s.size := by
    rw [size, kept]
    omega
  unfold step
  split
  · have hdelimit := kept_delimit s
    rw [kept, show s.delimit.pieces = [] from rfl] at hdelimit
    rw [hplain, hemit, size, ← hdelimit]
    simp
  · rw [if_pos rfl, hemit]
    exact hkept
  · exact hkept
  · simpa [newline, singleQuote, push] using hkept
  · simpa [newline, doubleQuote, backslash, isExpansion, backquote, push] using hkept
  · exact hkept
  · exact hkept

end Lexer

/-- The first character that is lost, if a text is not one word. -/
theorem exists_lost {t : Text} (hne : t ≠ []) (h : ¬ IsWord t) :
    ∃ u c v, t = u ++ c :: v ∧ (∀ d ∈ u, isOrdinary d = true) ∧ u.head? ≠ some '#' ∧
      (isOrdinary c = false ∨ (c = '#' ∧ u = [])) := by
  obtain ⟨c, v, rfl⟩ := List.exists_cons_of_ne_nil hne
  by_cases hhash : c = '#'
  · exact ⟨[], c, v, rfl, by simp, by simp, .inr ⟨hhash, rfl⟩⟩
  · have hsplit := List.takeWhile_append_dropWhile (p := isOrdinary) (l := c :: v)
    set u := (c :: v).takeWhile isOrdinary with hu
    have huAll : ∀ d ∈ u, isOrdinary d = true := fun d hd => List.mem_takeWhile_imp hd
    have huHead : u.head? ≠ some '#' := by
      intro hd
      rw [hu, List.takeWhile_cons] at hd
      split at hd
      · simp [hhash] at hd
      · simp at hd
    cases hdrop : (c :: v).dropWhile isOrdinary with
    | nil =>
        rw [hdrop, List.append_nil] at hsplit
        exact absurd ⟨by simp, hsplit ▸ huAll, by simpa using hhash⟩ h
    | cons d w =>
        have hlost := List.head?_dropWhile_not isOrdinary (c :: v)
        rw [hdrop] at hlost
        rw [hdrop] at hsplit
        exact ⟨u, d, w, hsplit.symm, huAll, huHead, .inl (by simpa using hlost)⟩

/-- An environment without home directories, files and values. -/
def bare : Env := ⟨fun _ => none, [], fun _ _ => false, fun _ => none⟩

theorem pathnames_of_no_files {env : Env} (h : env.files = []) (w : Word) :
    pathnames env w = [text w] := by
  simp [pathnames, h]

theorem tilde_of_no_home {env : Env} (h : ∀ login, env.home login = none) (w : Word) :
    tilde env w = w := by
  unfold tilde
  split
  · simp [h]
  · rfl

theorem fields_bare (w : Word) : fields bare w = [text w] := by
  rw [fields, tilde_of_no_home (fun _ => rfl), pathnames_of_no_files rfl]

/-- A last argument that is not one word loses a character. -/
theorem argv_bare_of_not_isWord {args : List Text} {last : Text} (hargs : ∀ t ∈ args, IsWord t)
    (hne : last ≠ []) (hlast : ¬ IsWord last) {result : List Text}
    (h : argv bare (commandLine args last) = some result) :
    (result.map List.length).sum < ((args ++ [last]).map List.length).sum := by
  obtain ⟨u, c, v, rfl, hu, huHead, hc⟩ := exists_lost hne hlast
  set tokens : List Token := args.map fun t => .word (unquoted t) with htokens
  set read := (Lexer.mk .plain tokens none).run (u ++ c :: v) with hread
  have hrun : Lexer.init.run (commandLine args (u ++ c :: v)) = read.step newline := by
    rw [commandLine, List.append_assoc, Lexer.init, Lexer.run_words hargs, List.nil_append,
      Lexer.run_append]
    rfl
  have hsize : read.size ≤ weight tokens + u.length + v.length :=
    Lexer.size_run_of_lost hu huHead hc tokens
  have hweight := Lexer.weight_step_newline_le read
  have hwords : weight tokens = (args.map List.length).sum := by
    have hmap := weight_map_word (args.map unquoted)
    simpa [htokens, unquoted, Function.comp_def] using hmap
  simp only [argv, hrun] at h
  split at h
  · cases h
  · split at h
    · rw [Option.map_eq_some_iff] at h
      obtain ⟨ws, hws, rfl⟩ := h
      have htotal : ((ws.flatMap (fields bare)).map List.length).sum =
          (ws.map List.length).sum := by
        simp [List.flatMap_def, fields_bare, text, Function.comp_def]
      rw [htotal, ← weight_of_simpleWords hws, List.map_append, List.sum_append, ← hwords]
      simp only [List.map_cons, List.map_nil, List.sum_cons, List.sum_nil, List.length_append,
        List.length_cons]
      omega
    · cases h

/-! ### What the expansions change -/

theorem fields_of_plain (env : Env) {t : Text} (ht : Plain t) : fields env (unquoted t) = [t] := by
  have htilde : tilde env (unquoted t) = unquoted t := by
    unfold tilde
    split
    · rename_i w heq
      obtain ⟨c, u, rfl⟩ := List.exists_cons_of_ne_nil ht.nonempty
      have hc : c = '~' := by
        simp only [unquoted, List.map_cons, List.cons.injEq, Piece.mk.injEq] at heq
        exact heq.1.1
      exact absurd (by rw [hc]; rfl) ht.noTilde
    · rfl
  rw [fields, htilde, pathnames, if_pos ht.noPattern, text_unquoted]

/-- A pattern is written as the word it comes from. -/
theorem source_patternFrom (skip : Nat) (w : Word) :
    (patternFrom skip w).flatMap Item.source = text (w.drop skip) := by
  induction w generalizing skip with
  | nil => cases skip <;> rfl
  | cons p w ih =>
      cases skip with
      | succ skip => simpa [patternFrom] using ih skip
      | zero =>
          have hrest := ih 0
          rw [List.drop_zero] at hrest
          have htext : text (p :: w) = p.char :: text w := rfl
          rw [patternFrom, List.drop_zero, htext]
          split_ifs with hquoted hany hone hbracket
          · simp [Item.source, hrest]
          · simp [Item.source, hrest, hany]
          · simp [Item.source, hrest, hone]
          · cases hlen : bracketLength w with
            | none => simp [Item.source, hrest]
            | some n =>
                have happend : text (w.take n) ++ text (w.drop n) = text w := by
                  rw [text, text, ← List.map_append, List.take_append_drop]
                  rfl
                simp [Item.source, ih n, hbracket, happend]
          · simp [Item.source, hrest]

def isMeta (c : Char) : Bool := c = '*' || c = '?' || c = '['

theorem all_isLiteral_of_forall {t : Text} (h : ∀ c ∈ t, isMeta c = false) :
    (pattern (unquoted t)).all Item.isLiteral = true := by
  induction t with
  | nil => rfl
  | cons c t ih =>
      have hc := h c (by simp)
      simp only [isMeta, Bool.or_eq_false_iff, decide_eq_false_iff_not] at hc
      have hrest := ih fun d hd => h d (by simp [hd])
      simp only [pattern, unquoted] at hrest
      simp [pattern, patternFrom, unquoted, hc, Item.isLiteral, hrest]

/-- A character that begins nothing, wherever it stands. -/
def isPlain (c : Char) : Bool := isOrdinary c && !(isMeta c) && c ≠ '#' && c ≠ '~'

/-- Without the characters that begin something, an argument is plain. -/
theorem plain_of_all {t : Text} (hne : t ≠ []) (h : t.all isPlain = true) : Plain t := by
  have hchar : ∀ c ∈ t, ((isOrdinary c = true ∧ isMeta c = false) ∧ c ≠ '#') ∧ c ≠ '~' := by
    intro c hc
    have hplain := List.all_eq_true.mp h c hc
    simpa [isPlain] using hplain
  exact {
    nonempty := hne
    ordinary := fun c hc => (hchar c hc).1.1.1
    noComment := fun hhead => (hchar '#' (List.mem_of_mem_head? hhead)).1.2 rfl
    noTilde := fun hhead => (hchar '~' (List.mem_of_mem_head? hhead)).2 rfl
    noPattern := all_isLiteral_of_forall fun c hc => (hchar c hc).1.1.2 }

theorem plain_of_digits {t : Text} (hne : t ≠ []) (h : ∀ c ∈ t, c.isDigit = true) : Plain t := by
  apply plain_of_all hne
  rw [List.all_eq_true]
  intro c hc
  have hdigit := h c hc
  simp only [Char.isDigit, Bool.and_eq_true, decide_eq_true_eq, ge_iff_le,
    UInt32.le_iff_toNat_le] at hdigit
  have hval : c = Char.ofNat c.toNat := (Char.ofNat_toNat c).symm
  have hlow : 48 ≤ c.toNat := hdigit.1
  have hhigh : c.toNat ≤ 57 := hdigit.2
  rw [hval]
  interval_cases c.toNat <;> decide

/-- A character that an item of a pattern matches wherever it stands. -/
def Item.sample : Item → Char
  | .literal c => c
  | _ => 'a'

theorem countP_sample_le (item : Item) :
    (if isMeta item.sample then 1 else 0) ≤ item.source.countP isMeta := by
  cases item with
  | literal c => by_cases hc : isMeta c = true <;> simp [Item.sample, Item.source, hc]
  | one => decide
  | any => decide
  | bracket body => simp [Item.sample, isMeta]

theorem countP_sample_lt {item : Item} (h : item.isLiteral = false) :
    (if isMeta item.sample then 1 else 0) < item.source.countP isMeta := by
  cases item with
  | literal c => cases h
  | one => decide
  | any => decide
  | bracket body => simp [Item.sample, Item.source, isMeta]

/-- A text that matches a pattern differs from it, if something in it is not literal. -/
theorem map_sample_ne_source {items : List Item} (h : items.all Item.isLiteral = false) :
    items.map Item.sample ≠ items.flatMap Item.source := by
  have hcount : ∀ items : List Item,
      (items.map Item.sample).countP isMeta ≤ (items.flatMap Item.source).countP isMeta := by
    intro items
    induction items with
    | nil => simp
    | cons item items ih =>
        have hitem := countP_sample_le item
        rw [List.map_cons, List.countP_cons, List.flatMap_cons, List.countP_append]
        omega
  have hlt : (items.map Item.sample).countP isMeta <
      (items.flatMap Item.source).countP isMeta := by
    induction items with
    | nil => cases h
    | cons item items ih =>
        have hle := hcount items
        rw [List.map_cons, List.countP_cons, List.flatMap_cons, List.countP_append]
        cases hitem : item.isLiteral with
        | false =>
            have hless := countP_sample_lt hitem
            omega
        | true =>
            have hmore := countP_sample_le item
            have hrest := ih (by simpa [hitem] using h)
            omega
  intro heq
  rw [heq] at hlt
  exact lt_irrefl _ hlt

theorem admits_sample {env : Env} (h : ∀ body c, env.member body c = true) (start : Bool)
    (items : List Item) : admits env start items (items.map Item.sample) = true := by
  induction items generalizing start with
  | nil => rfl
  | cons item items ih =>
      have hwild : ∀ start, wild start 'a' = true := by decide
      cases item with
      | literal c => simp [admits, Item.sample, ih]
      | one => simp [admits, Item.sample, hwild, ih]
      | bracket body => simp [admits, Item.sample, hwild, h, ih]
      | any =>
          rw [List.map_cons, admits, Bool.and_eq_true, List.any_eq_true]
          refine ⟨by simp [Item.sample], 1, by simp, ?_⟩
          simp [Item.sample, ih]

/-! ### The exact condition -/

def Invocation.words (inv : Invocation) : List Text := inv.utility :: (inv.options ++ inv.operands)

theorem arguments_sublist (args : List Text) :
    ((arguments args).1 ++ (arguments args).2).Sublist args := by
  induction args with
  | nil => simp [arguments]
  | cons arg args ih =>
      unfold arguments
      split_ifs
      · exact List.sublist_cons_self arg args
      · exact ih.cons_cons arg
      · simp

theorem words_sublist {args : List Text} {inv : Invocation} (h : invocation args = some inv) :
    inv.words.Sublist args := by
  cases args with
  | nil => cases h
  | cons utility args =>
      cases h
      exact (arguments_sublist args).cons_cons utility

/-- The sum of the lengths does not grow in a sublist. -/
theorem sum_length_le_of_sublist {ts us : List Text} (h : ts.Sublist us) :
    (ts.map List.length).sum ≤ (us.map List.length).sum :=
  (h.map List.length).sum_le_sum (fun _ _ => Nat.zero_le _)

theorem isWord_of_reads {args : List Text} {last : Text} {inv : Invocation}
    (hargs : ∀ t ∈ args, IsWord t) (hinv : inv.words = args ++ [last])
    (h : reads bare (commandLine args last) = some inv) : IsWord last := by
  rw [reads, Option.bind_eq_some_iff] at h
  obtain ⟨result, hresult, hinvocation⟩ := h
  have hsub := words_sublist hinvocation
  rw [hinv] at hsub
  by_contra hlast
  by_cases hne : last = []
  · subst hne
    rw [argv_of_empty_last bare hargs, Option.some.injEq] at hresult
    simp only [fields_bare, text_unquoted, List.flatMap_singleton'] at hresult
    have hlen := hsub.length_le
    rw [← hresult, List.length_append, List.length_singleton] at hlen
    omega
  · have hlt := argv_bare_of_not_isWord hargs hne hlast hresult
    have hle := sum_length_le_of_sublist hsub
    omega

/-- Another home directory, or another file, changes an argument that is not plain. -/
theorem plain_of_fields {t : Text} (ht : IsWord t) (h : ∀ env, t ∈ fields env (unquoted t)) :
    Plain t where
  toIsWord := ht
  noTilde := by
    intro htilde
    obtain ⟨u, rfl⟩ : ∃ u, t = '~' :: u := by
      cases t with
      | nil => cases htilde
      | cons c u => exact ⟨u, by rw [List.head?_cons, Option.some.injEq] at htilde; rw [htilde]⟩
    let env : Env := { bare with home := fun _ => some ['/'] }
    have hlogin : ((unquoted u).takeWhile fun p => p.char ≠ '/' || p.quoted).any Piece.quoted =
        false := by
      rw [List.any_eq_false]
      intro p hp
      have hmem := (List.takeWhile_prefix _).subset hp
      simp only [unquoted, List.mem_map] at hmem
      obtain ⟨c, -, rfl⟩ := hmem
      exact Bool.false_ne_true
    have hdir : ∃ w, tilde env (⟨'~', false⟩ :: unquoted u) = ⟨'/', true⟩ :: w := by
      simp only [tilde, hlogin]
      exact ⟨_, rfl⟩
    obtain ⟨w, hw⟩ := hdir
    have hmem := h env
    change '~' :: u ∈ fields env (⟨'~', false⟩ :: unquoted u) at hmem
    rw [fields, hw, pathnames_of_no_files rfl, List.mem_singleton] at hmem
    exact absurd (List.head_eq_of_cons_eq hmem) (by decide)
  noPattern := by
    by_contra hpattern
    rw [Bool.not_eq_true] at hpattern
    let sample := (pattern (unquoted t)).map Item.sample
    let env : Env := { bare with files := [sample], member := fun _ _ => true }
    have hsource : (pattern (unquoted t)).flatMap Item.source = t := by
      rw [pattern, source_patternFrom, List.drop_zero, text_unquoted]
    have hne : sample ≠ t := fun heq => map_sample_ne_source hpattern (heq.trans hsource.symm)
    have hadmits : admits env true (pattern (unquoted t)) sample = true :=
      admits_sample (fun _ _ => rfl) true _
    have hmem := h env
    rw [fields, tilde_of_no_home (fun _ => rfl), pathnames, if_neg (by simp [hpattern])] at hmem
    simp [env, hadmits] at hmem
    exact hne hmem.symm

/-- A line is read as it was meant in every environment exactly if its last argument
is plain and the utility takes it for what it was meant. -/
theorem reads_iff {args : List Text} {last : Text} {inv : Invocation}
    (hargs : ∀ t ∈ args, Plain t) (hinv : inv.words = args ++ [last]) :
    (∀ env, reads env (commandLine args last) = some inv) ↔
      Plain last ∧ invocation (args ++ [last]) = some inv := by
  have hwords : ∀ t ∈ args, IsWord t := fun t ht => (hargs t ht).toIsWord
  have hfields : ∀ env, args.flatMap (fun t => fields env (unquoted t)) = args := by
    intro env
    rw [List.flatMap_congr fun t ht => fields_of_plain env (hargs t ht),
      List.flatMap_singleton']
  constructor
  · intro h
    have hlast : IsWord last := isWord_of_reads hwords hinv (h bare)
    have hplain : Plain last := by
      apply plain_of_fields hlast
      intro env
      have henv := h env
      rw [reads, argv_of_isWord env hwords hlast, Option.bind_some, List.flatMap_append, hfields]
        at henv
      have hsub := words_sublist henv
      rw [hinv, List.append_sublist_append_left, List.singleton_sublist] at hsub
      simpa using hsub
    refine ⟨hplain, ?_⟩
    have hbare := h bare
    rw [reads, argv_of_isWord bare hwords hlast, Option.bind_some, List.flatMap_append, hfields,
      List.flatMap_singleton, fields_of_plain bare hplain] at hbare
    exact hbare
  · rintro ⟨hplain, hinvocation⟩ env
    rw [reads, argv_of_isWord env hwords hplain.toIsWord, Option.bind_some, List.flatMap_append,
      hfields, List.flatMap_singleton, fields_of_plain env hplain]
    exact hinvocation

end Susrv.Base.PosixShell
