/-
How big the matcher of folder globs is. Such a glob nests five levels deep whatever its name, and
its expression grows by one state for each byte of the name (`size_folderGlob`); so whether folder
globs can be compiled together is a matter of how long their names are
(`compileFault?_folders_iff`).
-/
import Repath.Glob.Bytes.Expression
import Repath.Proofs.Glob.BytePatterns

namespace Repath.Glob

/-! ## Nesting -/

theorem nestingBehind_depth_le_iff (limit : Nat) (tokens : List ByteToken) (piece : Nesting) :
    (nestingBehind tokens piece).depth ≤ limit ↔
      piece.depth ≤ limit ∧ ∀ token ∈ tokens, token.nesting.depth ≤ limit := by
  induction tokens generalizing piece with
  | nil => simp [nestingBehind]
  | cons token tokens ih =>
    rw [nestingBehind, ih, List.forall_mem_cons, ← and_assoc]
    exact and_congr_left fun _ => Nat.max_le

theorem depth_folderGlob_le (name : PlainName) : name.folderGlob.depth ≤ nestLimit := by
  have htokens : ∀ token ∈ name.folderGlob.tokens, token.nesting.depth ≤ 4 := by
    intro token htoken
    simp only [PlainName.folderGlob, literals, List.mem_cons, List.mem_append, List.mem_map,
      List.not_mem_nil, or_false] at htoken
    obtain rfl | ⟨c, -, rfl⟩ | rfl := htoken
    · exact Nat.le_refl 4
    · exact Nat.zero_le 4
    · exact Nat.le_add_left 1 3
  have hdepth := (nestingBehind_depth_le_iff 4 name.folderGlob.tokens {}).2 ⟨Nat.zero_le 4, htokens⟩
  exact Nat.le_trans (Nat.succ_le_succ hdepth) (by decide)

/-! ## Expressions -/

theorem expressionsBehind_eq (tokens : List ByteToken) (done : List Expression) :
    expressionsBehind tokens done = (tokens.map ByteToken.expression).reverse ++ done := by
  induction tokens generalizing done with
  | nil => rfl
  | cons token tokens ih =>
    rw [expressionsBehind, ih, List.map_cons, List.reverse_cons, List.append_assoc]
    rfl

open Expression

/-- Literals in a row become one. -/
theorem foldl_append_literals (t : Text) (joined : Joined) :
    ((literals t).map ByteToken.expression).foldl Joined.append joined =
      { joined with growing := (Utf8.encode t).reverse ++ joined.growing } := by
  induction t generalizing joined with
  | nil => rfl
  | cons c t ih =>
    have hadd : joined.append (ByteToken.expression (.literal (String.utf8EncodeChar c))) =
        { joined with growing := (String.utf8EncodeChar c).reverse ++ joined.growing } := by
      rw [← List.reverseAux_eq]
      rfl
    rw [literals, List.map_cons, List.map_cons, List.foldl_cons, hadd]
    refine (ih _).trans ?_
    simp [Utf8.encode]

/-- The expression of folders in front of a name. -/
def anyFolders : Expression :=
  .choice [.optional oneSlash, .sequence [anyBytes, oneSlash]]

theorem inOrder_folder (t : Text) :
    inOrder (.edge :: (anyFolders :: ((literals t).map ByteToken.expression ++
      [ByteToken.trailing.expression]) ++ [.edge])) =
      .sequence [.edge, anyFolders, .literal (Utf8.encode t ++ [slash]), anyBytes, .edge] := by
  -- the slash behind the name comes from the stars at the end and joins its literal
  have hgrowing : ((({} : Joined).append .edge).append anyFolders).growing = [] := rfl
  have hjoined : (Expression.edge :: (anyFolders :: ((literals t).map ByteToken.expression ++
      [ByteToken.trailing.expression]) ++ [Expression.edge])).foldl Joined.append {} =
      { done := [.edge, anyBytes, .literal (slash :: (Utf8.encode t).reverse).reverse, anyFolders,
          .edge] } := by
    rw [List.foldl_cons, List.cons_append, List.foldl_cons, List.append_assoc, List.foldl_append,
      foldl_append_literals, hgrowing, List.append_nil]
    rfl
  rw [inOrder, hjoined, List.reverse_cons, List.reverse_reverse]
  rfl

theorem expression_folderGlob (name : PlainName) : name.folderGlob.expression =
    .sequence [.edge, anyFolders, .literal (name.bytes ++ [slash]), anyBytes, .edge] := by
  unfold ByteGlob.expression
  split
  · rename_i htokens
    exact absurd htokens (by simp [PlainName.folderGlob])
  · rw [expressionsBehind_eq, List.append_nil, List.reverse_reverse, PlainName.folderGlob,
      List.map_cons, List.map_append]
    exact inOrder_folder name.text

/-! ## Sizes -/

theorem size_folderGlob (name : PlainName) :
    name.folderGlob.expression.size = .both (528 + 32 * name.bytes.length) := by
  have hsize : ∀ bytes : Bytes,
      (Expression.sequence [.edge, anyFolders, .literal bytes, anyBytes, .edge]).size =
        .both (32 + 320 + bytes.length * 32 + 112 + 32) := fun _ => rfl
  rw [expression_folderGlob, hsize, List.length_append, List.length_singleton]
  congr 1
  omega

/-- The bytes that folder globs take in a matcher, by the bytes of each of their names. -/
def folderBytes (lengths : List Nat) : Nat :=
  lengths.foldr (fun n bytes => 624 + 32 * n + bytes) 0

/-- The bytes of the matcher of folder globs. -/
def folderMatcherBytes (lengths : List Nat) : Nat :=
  32 + (if lengths.length < 2 then 0 else 64 + 4 * lengths.length) + folderBytes lengths

/-- Forward each glob takes 96 bytes beside its expression, backward fewer. -/
theorem foldl_size_folders (names : List PlainName) (taken : MatcherSize) :
    ∃ backward, backward ≤ taken.backward + folderBytes (names.map (·.bytes.length)) ∧
      (names.map fun name => name.folderGlob.expression).foldl
          (fun taken expression => taken + expression.size + ⟨3 * stateBytes, stateBytes⟩) taken =
        ⟨taken.forward + folderBytes (names.map (·.bytes.length)), backward⟩ := by
  induction names generalizing taken with
  | nil => exact ⟨taken.backward, Nat.le_refl _, rfl⟩
  | cons name names ih =>
    have hadd : taken + name.folderGlob.expression.size + ⟨3 * stateBytes, stateBytes⟩ =
        ⟨taken.forward + (528 + 32 * name.bytes.length) + 96,
          taken.backward + (528 + 32 * name.bytes.length) + 32⟩ := by
      rw [size_folderGlob]
      rfl
    obtain ⟨backward, hle, heq⟩ :=
      ih ⟨taken.forward + (528 + 32 * name.bytes.length) + 96,
        taken.backward + (528 + 32 * name.bytes.length) + 32⟩
    have hcons : folderBytes ((name :: names).map (·.bytes.length)) =
        624 + 32 * name.bytes.length + folderBytes (names.map (·.bytes.length)) := rfl
    refine ⟨backward, ?_, ?_⟩
    · have hbound : backward ≤ taken.backward + (528 + 32 * name.bytes.length) + 32 +
          folderBytes (names.map (·.bytes.length)) := hle
      omega
    · rw [List.map_cons, List.foldl_cons, hadd, heq, hcons]
      have hforward : taken.forward + (528 + 32 * name.bytes.length) + 96 =
          taken.forward + (624 + 32 * name.bytes.length) := by omega
      rw [hforward, Nat.add_assoc]

theorem compiledSize_folders (names : List PlainName) :
    (Expression.compiledSize (names.map fun name => name.folderGlob.expression)).forward =
        folderMatcherBytes (names.map (·.bytes.length)) ∧
      (Expression.compiledSize (names.map fun name => name.folderGlob.expression)).backward ≤
        folderMatcherBytes (names.map (·.bytes.length)) := by
  have hchoice : choiceBytes names.length = 64 + 4 * names.length := by
    unfold choiceBytes forkBytes stateBytes
    omega
  rw [Expression.compiledSize, folderMatcherBytes, List.length_map, List.length_map, hchoice]
  obtain ⟨backward, hle, heq⟩ := foldl_size_folders names
    (.both (stateBytes + if names.length < 2 then 0 else 64 + 4 * names.length))
  rw [heq]
  exact ⟨rfl, hle⟩

/-- Folder globs are compiled together if their names are not too long. -/
theorem compileFault?_folders_iff (names : List PlainName) :
    compileFault? (names.map PlainName.folderGlob) = none ↔
      folderMatcherBytes (names.map (·.bytes.length)) ≤ matcherLimit := by
  have hdepth : ((names.map PlainName.folderGlob).any fun glob => nestLimit < glob.depth) = false := by
    simp only [List.any_map, List.any_eq_false, Function.comp_apply, decide_eq_true_eq, Nat.not_lt]
    exact fun name _ => depth_folderGlob_le name
  obtain ⟨hforward, hbackward⟩ := compiledSize_folders names
  have hfits : (Expression.compiledSize ((names.map PlainName.folderGlob).map ByteGlob.expression)).fits
      matcherLimit = true ↔ folderMatcherBytes (names.map (·.bytes.length)) ≤ matcherLimit := by
    rw [List.map_map, MatcherSize.fits, Bool.and_eq_true, decide_eq_true_iff, decide_eq_true_iff]
    exact ⟨fun h => hforward ▸ h.1, fun h => ⟨hforward ▸ h, Nat.le_trans hbackward h⟩⟩
  rw [compileFault?, hdepth, if_neg Bool.false_ne_true, ← hfits]
  constructor
  · intro hnone
    by_contra hbig
    rw [if_neg hbig] at hnone
    cases hnone
  · exact fun hfit => if_pos hfit

end Repath.Glob
