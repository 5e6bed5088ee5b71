/-
The regular expressions of patterns, read back. A small reader takes the text of an expression
apart as a regular expression is read: some characters are operators, a backslash takes the next one
as itself, and a flag in front lets a point match line feeds. The text made for a pattern reads as
one item for each token between the two ends (`read?_regex`), so no character of the pattern becomes
an operator, and what the expression finds are exactly the paths that match (`isMatch_iff_pieces`).
-/
import Repath.Proofs.Glob.Tokens

namespace Repath.Glob

namespace Regex

/-! ## Expressions -/

/-- What matches one character. -/
inductive Atom where
  /-- A point: any character; a line feed only under the flag. -/
  | point (flag : Bool)
  /-- A class of all characters but one. -/
  | except (c : Char)
  | literal (c : Char)
deriving DecidableEq, Repr

inductive Item where
  /-- The start of the text. -/
  | start
  /-- The end of the text. -/
  | stop
  | one (atom : Atom)
  /-- Any number of characters, each of which the atom matches. -/
  | many (atom : Atom)
deriving DecidableEq, Repr

def Atom.admits : Atom → Char → Bool
  | point flag, d => flag || d != '\n'
  | except c, d => d != c
  | literal c, d => d == c

/-- Whether an item matches a piece that stands between two parts of a text. -/
def Item.Matches (before piece after : Text) : Item → Prop
  | start => piece = [] ∧ before = []
  | stop => piece = [] ∧ after = []
  | one atom => ∃ c, piece = [c] ∧ atom.admits c = true
  | many atom => ∀ c ∈ piece, atom.admits c = true

/-- Whether items, one after the other, match a piece that stands between two parts of a text. -/
def Matches : List Item → Text → Text → Text → Prop
  | [], _, piece, _ => piece = []
  | item :: items, before, piece, after =>
    ∃ first rest, piece = first ++ rest ∧ item.Matches before first (rest ++ after) ∧
      Matches items (before ++ first) rest after

/-- Whether an expression is found in a text: it matches some piece of it. -/
def Finds (items : List Item) (text : Text) : Prop :=
  ∃ before piece after, text = before ++ (piece ++ after) ∧ Matches items before piece after

/-! ## Reading -/

/-- The characters that do not stand for themselves. -/
def operators : Text :=
  "\\.+*?()|[]\x7b\x7d^$".toList

/-- Whether a backslash makes a character stand for itself. -/
def isEscapable (c : Char) : Bool :=
  c.toNat < 0x80 && !c.isAlphanum && c != '<' && c != '>'

/-- Reads items with those read before last first. Alternatives, groups, counts and the other
classes are not read. -/
def readItems (flag : Bool) : Text → List Item → Option (List Item)
  | [], done => some done.reverse
  | '\\' :: c :: rest, done =>
    if isEscapable c then readItems flag rest (.one (.literal c) :: done) else none
  | '[' :: '^' :: c :: ']' :: rest, done =>
    if operators.contains c then none else readItems flag rest (.one (.except c) :: done)
  | '*' :: rest, .one atom :: done => readItems flag rest (.many atom :: done)
  | '.' :: rest, done => readItems flag rest (.one (.point flag) :: done)
  | '^' :: rest, done => readItems flag rest (.start :: done)
  | '$' :: rest, done => readItems flag rest (.stop :: done)
  | c :: rest, done =>
    if operators.contains c then none else readItems flag rest (.one (.literal c) :: done)
termination_by structural regex => regex

/-- Reads an expression, with the flag in front or without. -/
def read? : Text → Option (List Item)
  | '(' :: '?' :: 's' :: ')' :: rest => readItems true rest []
  | regex => readItems false regex []

end Regex

open Regex

/-! ## The expression of a pattern -/

/-- The item of a token. -/
def Token.item : Token → Item
  | anything => .many (.point true)
  | segment => .many (.except '/')
  | single => .one (.point true)
  | literal c => .one (.literal c)

theorem readItems_plain {c : Char} (h : c ∉ operators) (rest : Text) (done : List Item) :
    readItems true (c :: rest) done = readItems true rest (.one (.literal c) :: done) := by
  have hno : ∀ d ∈ operators, c ≠ d := fun d hd heq => h (heq ▸ hd)
  have hback : c ≠ '\\' := hno _ (by decide)
  have hclass : c ≠ '[' := hno _ (by decide)
  have hstar : c ≠ '*' := hno _ (by decide)
  have hpoint : c ≠ '.' := hno _ (by decide)
  have hstart : c ≠ '^' := hno _ (by decide)
  have hstop : c ≠ '$' := hno _ (by decide)
  rw [readItems, if_neg fun hin => h (List.contains_iff_mem.1 hin)] <;> simp [*]

/-- A character that is escaped where it has to be reads as itself. -/
theorem readItems_escaped (c : Char) (rest : Text) (done : List Item) :
    readItems true (escaped c ++ rest) done = readItems true rest (.one (.literal c) :: done) := by
  unfold escaped
  split
  · rename_i hmeta
    have hall : metacharacters.all isEscapable = true := by decide
    have hescapable := List.all_eq_true.1 hall c (List.contains_iff_mem.1 hmeta)
    show readItems true ('\\' :: c :: rest) done = _
    rw [readItems, if_pos hescapable]
  · rename_i hplain
    -- every operator is among the characters that are escaped
    have hall : operators.all metacharacters.contains = true := by decide
    exact readItems_plain (fun hop => hplain (List.all_eq_true.1 hall c hop)) rest done

/-- The part of a token reads as its item, whatever is behind. -/
theorem readItems_token (token : Token) (rest : Text) (done : List Item) :
    readItems true (token.regex ++ rest) done = readItems true rest (token.item :: done) := by
  cases token with
  | anything => rfl
  | segment => rfl
  | single => rfl
  | literal c => exact readItems_escaped c rest done

theorem readItems_tokens (rest : Text) :
    ∀ (ts : List Token) (done : List Item),
      readItems true (ts.flatMap Token.regex ++ rest) done =
        readItems true rest ((ts.map Token.item).reverse ++ done)
  | [], _ => rfl
  | token :: ts, done => by
    rw [List.flatMap_cons, List.append_assoc, readItems_token, readItems_tokens rest ts]
    simp

/-- The items of a pattern's tokens between the two ends of the text. -/
def anchored (ts : List Token) : List Item :=
  .start :: (ts.map Token.item ++ [.stop])

/-- The expression of a pattern reads as one item for each token between the two ends. -/
theorem read?_regex (pattern : Text) : read? (regex pattern) = some (anchored (tokens pattern)) := by
  show readItems true ((tokens pattern).flatMap Token.regex ++ ['$']) [.start] = _
  rw [readItems_tokens]
  show some (Item.stop :: ((tokens pattern).map Token.item).reverse ++ [Item.start]).reverse = _
  simp [anchored]

/-! ## What it finds -/

/-- The item of a token matches the pieces that the token admits, wherever they stand. -/
theorem Token.item_matches_iff (token : Token) (before piece after : Text) :
    token.item.Matches before piece after ↔ token.Admits piece := by
  cases token with
  | anything => simp [Token.item, Item.Matches, Atom.admits, Token.Admits]
  | segment =>
    simp only [Token.item, Item.Matches, Atom.admits, Token.Admits, bne_iff_ne]
    exact ⟨fun hall hin => hall _ hin rfl, fun hnot c hc heq => hnot (heq ▸ hc)⟩
  | single => simp [Token.item, Item.Matches, Atom.admits, Token.Admits]
  | literal c => simp [Token.item, Item.Matches, Atom.admits, Token.Admits]

theorem matches_items_iff :
    ∀ (ts : List Token) (before piece after : Text),
      Matches (ts.map Token.item ++ [.stop]) before piece after ↔ CutsBy ts piece ∧ after = []
  | [], before, piece, after => by
    rw [cutsBy_nil]
    simp only [List.map_nil, List.nil_append, Matches, Item.Matches]
    constructor
    · rintro ⟨first, rest, rfl, ⟨rfl, hafter⟩, rfl⟩
      exact ⟨rfl, by simpa using hafter⟩
    · rintro ⟨rfl, rfl⟩
      exact ⟨[], [], rfl, ⟨rfl, rfl⟩, rfl⟩
  | token :: ts, before, piece, after => by
    rw [cutsBy_cons]
    simp only [List.map_cons, List.cons_append, Matches, Token.item_matches_iff,
      matches_items_iff ts]
    constructor
    · rintro ⟨first, rest, hpiece, hadmits, hcut, hafter⟩
      exact ⟨⟨first, rest, hpiece, hadmits, hcut⟩, hafter⟩
    · rintro ⟨⟨first, rest, hpiece, hadmits, hcut⟩, hafter⟩
      exact ⟨first, rest, hpiece, hadmits, hcut, hafter⟩

/-- The expression finds what it is to match only as the whole text. -/
theorem finds_anchored_iff (ts : List Token) (text : Text) :
    Finds (anchored ts) text ↔ CutsBy ts text := by
  unfold Finds anchored
  simp only [Matches, Item.Matches, matches_items_iff]
  constructor
  · rintro ⟨before, piece, after, rfl, first, rest, rfl, ⟨rfl, rfl⟩, hcut, rfl⟩
    simpa using hcut
  · intro hcut
    exact ⟨[], text, [], by simp, [], text, rfl, ⟨rfl, rfl⟩, hcut, rfl⟩

end Repath.Glob

namespace Repath.PathGlob

open Glob

theorem tokens_of_compile {pattern : Text} {glob : PathGlob} (h : compile pattern = .ok glob) :
    glob.tokens = Glob.tokens pattern := by
  unfold compile at h
  split at h <;> cases h
  rfl

/-- What a pattern that compiles means. It has one reading into tokens, and a path matches exactly if
it can be cut into consecutive pieces, one for each token, that the tokens admit. Its regular
expression reads as one item for each of these tokens between the start and the end of the text, and
is found in exactly the paths that match. -/
theorem isMatch_iff_pieces {pattern : Text} {glob : PathGlob} (h : compile pattern = .ok glob) :
    ∃ ts, Reads pattern ts ∧ (∀ others, Reads pattern others → others = ts) ∧
      Regex.read? (regex pattern) = some (.start :: (ts.map Token.item ++ [.stop])) ∧
      ∀ path, (glob.isMatch path = true ↔
          ∃ pieces, List.Forall₂ Token.Admits ts pieces ∧ path = pieces.flatten) ∧
        (glob.isMatch path = true ↔ Regex.Finds (.start :: (ts.map Token.item ++ [.stop])) path) := by
  refine ⟨Glob.tokens pattern, reads_tokens pattern, fun _ h' => reads_iff.1 h',
    read?_regex pattern, fun path => ?_⟩
  have hmatch : glob.isMatch path = true ↔ CutsBy (Glob.tokens pattern) path := by
    rw [isMatch_iff, tokens_of_compile h]
  exact ⟨hmatch, hmatch.trans (finds_anchored_iff _ path).symm⟩

/-- Two stars go on across slashes and line feeds, a point stands for itself, and a question mark
for one character however many bytes it has. -/
theorem isMatch_iff_pieces_stars :
    ∃ glob ts, compile "**.?".toList = .ok glob ∧ Reads "**.?".toList ts ∧
      ts = [.anything, .literal '.', .single] ∧
      List.Forall₂ Token.Admits ts ["x/\ny".toList, ['.'], ['é']] ∧
      glob.isMatch "x/\ny.é".toList = true ∧
      Regex.Finds (.start :: (ts.map Token.item ++ [.stop])) "x/\ny.é".toList := by
  have hfits : (compiledSize "**.?".toList).fits sizeLimit = true := by decide +kernel
  have hcompile : compile "**.?".toList = .ok ⟨"**.?".toList, Glob.tokens "**.?".toList⟩ :=
    if_pos hfits
  obtain ⟨ts, hreads, -, -, hmatch⟩ := isMatch_iff_pieces hcompile
  obtain rfl : ts = [.anything, .literal '.', .single] := reads_iff.1 hreads
  have hpieces : List.Forall₂ Token.Admits [.anything, .literal '.', .single]
      ["x/\ny".toList, ['.'], ['é']] :=
    .cons trivial (.cons rfl (.cons ⟨'é', rfl⟩ .nil))
  have hfound := (hmatch "x/\ny.é".toList).1.2 ⟨_, hpieces, rfl⟩
  exact ⟨_, _, hcompile, hreads, rfl, hpieces, hfound, (hmatch _).2.1 hfound⟩

end Repath.PathGlob
