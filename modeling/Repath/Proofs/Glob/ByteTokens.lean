/-
What the tokens of a glob for watched paths say. Each token admits some pieces of a path; tokens in a
row admit what can be cut into pieces that they admit, and branches what one of them admits. The
spots that a token reaches are those that lie a piece further that it admits
(`ByteToken.reach_spec`), so a glob covers exactly the paths that its tokens admit (`covers_iff`).
-/
import Repath.Glob.Bytes.Matching
import Repath.Proofs.Glob.Reach

namespace Repath.Glob

/-! ## What tokens admit -/

mutual

/-- What a token stands for. -/
def ByteToken.Admits : ByteToken → Bytes → Prop
  | .literal bytes, piece => piece = bytes
  | .any, piece => ∃ b, piece = [b]
  | .star, _ => True
  | .leading, piece => piece = [] ∨ piece.getLast? = some slash
  | .trailing, piece => piece.head? = some slash
  | .inner, piece => piece.head? = some slash ∧ piece.getLast? = some slash
  | .oneOf negated ranges, piece => ∃ b, (inRanges ranges b != negated) = true ∧ piece = [b]
  | .branches parts, piece =>
    if asksNothing [.branches parts] then piece = [] else AnyAdmits parts piece
termination_by structural token => token

/-- What tokens stand for one after the other. -/
def AllAdmit : List ByteToken → Bytes → Prop
  | [], piece => piece = []
  | token :: rest, piece =>
    ∃ first behind, piece = first ++ behind ∧ token.Admits first ∧ AllAdmit rest behind
termination_by structural tokens => tokens

/-- What one of some branches stands for; those that ask for nothing do not count. -/
def AnyAdmits : List (List ByteToken) → Bytes → Prop
  | [], _ => False
  | part :: rest, piece => asksNothing part = false ∧ AllAdmit part piece ∨ AnyAdmits rest piece
termination_by structural parts => parts

end

/-! ## What tokens reach -/

section

open Spots

variable {path : Bytes} {spots : Spots UInt8}

theorem reaches_literal (bytes : Bytes) (h : Of path spots) :
    Reaches path spots (· = bytes) (bytes.foldl (fun spots b => spots.one (· == b)) spots) := by
  induction bytes generalizing spots with
  | nil => exact reaches_self h
  | cons b bytes ih =>
    refine ((reaches_one h _).trans (ih (h.one _))).congr fun piece => ?_
    simp

theorem reaches_slash (h : Of path spots) :
    Reaches path spots (· = [slash]) (spots.one isSlash) :=
  (reaches_one h _).congr fun piece => by simp [isSlash]

theorem reaches_every (h : Of path spots) :
    Reaches path spots (fun _ => True) (spots.run everyByte) :=
  (reaches_run h _).congr fun piece => by simp [everyByte]

mutual

/-- A token reaches the spots that lie a piece further that it admits. -/
theorem ByteToken.reach_spec {spots : Spots UInt8} (h : Of path spots) :
    ∀ token : ByteToken, Reaches path spots token.Admits (token.reach spots)
  | .literal bytes => reaches_literal bytes h
  | .any => (reaches_one h everyByte).congr fun piece => by simp [everyByte, ByteToken.Admits]
  | .star => (reaches_every h).congr fun piece => by simp [ByteToken.Admits]
  | .leading =>
    (((reaches_self h).either (reaches_slash h)).either
      ((reaches_every h).trans (reaches_slash (reaches_every h).of))).congr fun piece => by
        simp only [ByteToken.Admits, List.getLast?_eq_some_iff, true_and, exists_eq_right, or_assoc]
        refine or_congr_right (or_iff_right_of_imp ?_)
        rintro rfl
        exact ⟨[], rfl⟩
  | .trailing =>
    ((reaches_slash h).trans (reaches_every (reaches_slash h).of)).congr fun piece => by
      simp [ByteToken.Admits, List.head?_eq_some_iff]
  | .inner =>
    ((reaches_slash h).either (((reaches_slash h).trans (reaches_every (reaches_slash h).of)).trans
      (reaches_slash (reaches_every (reaches_slash h).of).of))).congr fun piece => by
        rw [ByteToken.Admits, List.head?_eq_some_iff, List.getLast?_eq_some_iff]
        constructor
        · rintro (rfl | ⟨_, _, rfl, ⟨_, p, rfl, rfl, -⟩, rfl⟩)
          · exact ⟨⟨[], rfl⟩, [], rfl⟩
          · exact ⟨⟨p ++ [slash], rfl⟩, slash :: p, rfl⟩
        · rintro ⟨⟨p, rfl⟩, q, hq⟩
          cases q with
          | nil => exact .inl hq
          | cons b q =>
            obtain ⟨rfl, rfl⟩ := List.cons.inj hq
            exact .inr ⟨slash :: q, [slash], rfl, ⟨[slash], q, rfl, rfl, trivial⟩, rfl⟩
  | .oneOf negated ranges => reaches_one h _
  | .branches parts => by
    rw [ByteToken.reach]
    cases hparts : asksNothing [.branches parts] with
    | true => exact (reaches_self h).congr fun piece => by simp [ByteToken.Admits, hparts]
    | false =>
      have hnone : Reaches path spots (fun _ => False) [] := ⟨⟨.nil, by simp⟩, by simp⟩
      exact (reachAny_spec h hnone parts).congr fun piece => by simp [ByteToken.Admits, hparts]

/-- Tokens in a row reach the spots that lie a piece further that they admit together. -/
theorem reachAll_spec {spots : Spots UInt8} (h : Of path spots) :
    ∀ tokens : List ByteToken, Reaches path spots (AllAdmit tokens) (reachAll spots tokens)
  | [] => (reaches_self h).congr fun piece => by simp [AllAdmit]
  | token :: rest =>
    ((ByteToken.reach_spec h token).trans
      (reachAll_spec (ByteToken.reach_spec h token).of rest)).congr fun piece => by
        simp [AllAdmit]

theorem reachAny_spec {spots reached : Spots UInt8} {pieces : Bytes → Prop} (h : Of path spots)
    (hreached : Reaches path spots pieces reached) : ∀ parts : List (List ByteToken),
      Reaches path spots (fun piece => pieces piece ∨ AnyAdmits parts piece)
        (reachAny spots parts reached)
  | [] => hreached.congr fun piece => by simp [AnyAdmits]
  | part :: rest => by
    rw [reachAny]
    cases hpart : asksNothing part with
    | true =>
      refine (reachAny_spec h hreached rest).congr fun piece => ?_
      simp [AnyAdmits, hpart]
    | false =>
      refine (reachAny_spec h (hreached.either (reachAll_spec h part)) rest).congr fun piece => ?_
      simp [AnyAdmits, hpart, or_assoc]

end

/-- A glob covers the paths that its tokens admit, and two stars alone cover every path. -/
theorem ByteGlob.covers_iff (glob : ByteGlob) (path : Bytes) :
    glob.covers path = true ↔ glob.tokens = [.leading] ∨ AllAdmit glob.tokens path := by
  unfold covers
  split
  · rename_i htokens
    exact iff_of_true rfl (.inl htokens)
  · rename_i htokens
    rw [(reachAll_spec (of_start path) glob.tokens).reachesEnd_iff]
    exact (or_iff_right htokens).symm

end

end Repath.Glob
