/-
What the tokens of a pattern say. Every pattern has one reading into tokens (`reads_iff`): two stars
are taken together before one is. A path matches exactly if it can be cut into consecutive pieces,
one for each token, that the tokens admit (`isMatch_iff`).
-/
import Repath.Exemption
import Repath.Proofs.Glob.Reach
import Mathlib.Data.List.Forall2

namespace Repath.Glob

/-! ## Reading -/

/-- The tokens of a pattern, read from the left. -/
inductive Reads : Text → List Token → Prop
  | nil : Reads [] []
  | anything {rest : Text} {ts : List Token} :
      Reads rest ts → Reads ('*' :: '*' :: rest) (.anything :: ts)
  | segment {rest : Text} {ts : List Token} :
      rest.head? ≠ some '*' → Reads rest ts → Reads ('*' :: rest) (.segment :: ts)
  | single {rest : Text} {ts : List Token} : Reads rest ts → Reads ('?' :: rest) (.single :: ts)
  | literal {c : Char} {rest : Text} {ts : List Token} :
      c ≠ '*' → c ≠ '?' → Reads rest ts → Reads (c :: rest) (.literal c :: ts)

/-- Reading finds tokens of the pattern behind those read before. -/
theorem tokensFrom_reads (pattern : Text) (done : List Token) :
    ∃ ts, tokensFrom pattern done = done.reverse ++ ts ∧ Reads pattern ts := by
  fun_induction tokensFrom pattern done with
  | case1 done => exact ⟨[], by simp, .nil⟩
  | case2 rest done ih =>
    obtain ⟨ts, heq, hreads⟩ := ih
    exact ⟨.anything :: ts, by simp [heq], .anything hreads⟩
  | case3 rest done hstar ih =>
    obtain ⟨ts, heq, hreads⟩ := ih
    refine ⟨.segment :: ts, by simp [heq], .segment (fun hhead => ?_) hreads⟩
    obtain ⟨behind, rfl⟩ := List.head?_eq_some_iff.1 hhead
    exact hstar behind rfl
  | case4 rest done ih =>
    obtain ⟨ts, heq, hreads⟩ := ih
    exact ⟨.single :: ts, by simp [heq], .single hreads⟩
  | case5 c rest done _ hstar hmark ih =>
    obtain ⟨ts, heq, hreads⟩ := ih
    exact ⟨.literal c :: ts, by simp [heq], .literal hstar hmark hreads⟩

theorem reads_tokens (pattern : Text) : Reads pattern (tokens pattern) := by
  obtain ⟨ts, heq, hreads⟩ := tokensFrom_reads pattern []
  rwa [tokens, heq]

/-- A pattern has one reading. -/
theorem Reads.eq {pattern : Text} {ts others : List Token} (h : Reads pattern ts)
    (h' : Reads pattern others) : ts = others := by
  induction h generalizing others with
  | nil => cases h'; rfl
  | anything _ ih =>
    cases h' with
    | anything h' => rw [ih h']
    | segment hhead _ => exact absurd rfl hhead
    | literal hstar _ _ => exact absurd rfl hstar
  | segment hhead _ ih =>
    cases h' with
    | anything _ => exact absurd rfl hhead
    | segment _ h' => rw [ih h']
    | literal hstar _ _ => exact absurd rfl hstar
  | single _ ih =>
    cases h' with
    | single h' => rw [ih h']
    | literal _ hmark _ => exact absurd rfl hmark
  | literal hstar hmark _ ih =>
    cases h' with
    | anything _ => exact absurd rfl hstar
    | segment _ _ => exact absurd rfl hstar
    | single _ => exact absurd rfl hmark
    | literal _ _ h' => rw [ih h']

theorem reads_iff {pattern : Text} {ts : List Token} : Reads pattern ts ↔ ts = tokens pattern :=
  ⟨fun h => h.eq (reads_tokens pattern), fun h => h ▸ reads_tokens pattern⟩

/-! ## Pieces -/

/-- What a token stands for: two stars for any text, a star for any text without a slash, a
question mark for any one scalar, and any other character for itself. -/
def Token.Admits : Token → Text → Prop
  | anything, _ => True
  | segment, piece => '/' ∉ piece
  | single, piece => ∃ c, piece = [c]
  | literal c, piece => piece = [c]

/-- The text can be cut into consecutive pieces, one for each token, that the tokens admit. -/
def CutsBy (ts : List Token) (text : Text) : Prop :=
  ∃ pieces, List.Forall₂ Token.Admits ts pieces ∧ text = pieces.flatten

theorem cutsBy_nil {text : Text} : CutsBy [] text ↔ text = [] := by
  simp [CutsBy, List.forall₂_nil_left_iff]

theorem cutsBy_cons {token : Token} {ts : List Token} {text : Text} :
    CutsBy (token :: ts) text ↔ ∃ piece rest, text = piece ++ rest ∧ token.Admits piece ∧
      CutsBy ts rest := by
  constructor
  · rintro ⟨pieces, h, rfl⟩
    obtain ⟨piece, pieces, hpiece, hpieces, rfl⟩ := List.forall₂_cons_left_iff.1 h
    exact ⟨piece, pieces.flatten, rfl, hpiece, pieces, hpieces, rfl⟩
  · rintro ⟨piece, rest, rfl, hpiece, pieces, hpieces, rfl⟩
    exact ⟨piece :: pieces, .cons hpiece hpieces, rfl⟩

/-! ## Matching -/

section Reach

open Spots

variable {path : Text} {spots : Spots Char}

/-- A token reaches the spots that lie a piece further that it admits. -/
theorem Token.reach_spec (h : Of path spots) (token : Token) :
    Reaches path spots token.Admits (token.reach spots) := by
  cases token with
  | anything => exact (reaches_run h _).congr fun piece => by simp [Token.Admits]
  | segment =>
    refine (reaches_run h _).congr fun piece => ?_
    simp only [bne_iff_ne, Token.Admits]
    exact ⟨fun hall hin => hall _ hin rfl, fun hnot c hc heq => hnot (heq ▸ hc)⟩
  | single => exact (reaches_one h _).congr fun piece => by simp [Token.Admits]
  | literal c => exact (reaches_one h _).congr fun piece => by simp [Token.Admits]

/-- Tokens in a row reach the spots that lie as far as pieces that they admit. -/
theorem foldl_reach_spec (ts : List Token) {spots : Spots Char} (h : Of path spots) :
    Reaches path spots (CutsBy ts) (ts.foldl Token.reach spots) := by
  induction ts generalizing spots with
  | nil => exact (reaches_self h).congr fun piece => cutsBy_nil.symm
  | cons token ts ih =>
    have hfirst := token.reach_spec h
    exact (hfirst.trans (ih hfirst.of)).congr fun piece => cutsBy_cons.symm

end Reach

end Repath.Glob

namespace Repath.PathGlob

open Glob

/-- A path matches exactly if the tokens cut the whole of it into pieces. -/
theorem isMatch_iff (glob : PathGlob) (path : Text) :
    glob.isMatch path = true ↔ CutsBy glob.tokens path := by
  rw [isMatch]
  exact (foldl_reach_spec glob.tokens (Spots.of_start path)).reachesEnd_iff

end Repath.PathGlob
