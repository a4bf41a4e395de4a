import Coverpin.Platform
import Mathlib.Data.List.Basic
import Mathlib.Data.List.Nodup

namespace Coverpin

/-! # Small utilities of the registry

`util/chunk.ts` and `util/sql-like.ts`; `util/group-by.ts` is `InsertionMap.groupBy`.
-/

/-- Each round takes one slice of at most `size` items; with `size` at least 1
there are at most as many rounds as items. -/
def chunkRounds : Nat → List α → Nat → List (List α)
  | 0, _, _ => []
  | rounds + 1, items, size =>
      if items.isEmpty then [] else items.take size :: chunkRounds rounds (items.drop size) size

/-- Consecutive slices of at most `size` items, for a `size` of at least 1. -/
def chunk (items : List α) (size : Nat) : List (List α) :=
  chunkRounds items.length items size

theorem chunkRounds_flatten {rounds size : Nat} {items : List α} (positive : 0 < size)
    (enough : items.length ≤ rounds) : (chunkRounds rounds items size).flatten = items := by
  induction rounds generalizing items with
  | zero => simp [chunkRounds, List.eq_nil_of_length_eq_zero (Nat.le_zero.mp enough)]
  | succ rounds induction =>
      cases items with
      | nil => rfl
      | cons item items =>
          have shorter : ((item :: items).drop size).length ≤ rounds := by
            simp only [List.length_drop, List.length_cons] at enough ⊢
            omega
          simp only [chunkRounds, List.isEmpty_cons, Bool.false_eq_true, if_false, List.flatten_cons,
            induction shorter]
          exact List.take_append_drop size (item :: items)

theorem chunk_flatten {size : Nat} (items : List α) (positive : 0 < size) :
    (chunk items size).flatten = items :=
  chunkRounds_flatten positive (Nat.le_refl _)

theorem length_of_mem_chunkRounds {rounds size : Nat} {items batch : List α}
    (member : batch ∈ chunkRounds rounds items size) :
    batch.length ≤ size := by
  induction rounds generalizing items with
  | zero => cases member
  | succ rounds induction =>
      rw [chunkRounds] at member
      split at member
      · cases member
      · rcases List.mem_cons.mp member with rfl | later
        · exact List.length_take_le _ _
        · exact induction later

theorem length_of_mem_chunk {size : Nat} {items batch : List α} (member : batch ∈ chunk items size) : batch.length ≤ size :=
  length_of_mem_chunkRounds member

theorem chunkRounds_map (f : α → β) (rounds size : Nat) (items : List α) :
    chunkRounds rounds (items.map f) size = (chunkRounds rounds items size).map (List.map f) := by
  induction rounds generalizing items with
  | zero => rfl
  | succ rounds induction =>
      cases items with
      | nil => rfl
      | cons item items =>
          simp only [chunkRounds, List.map_cons, List.isEmpty_cons, Bool.false_eq_true, if_false]
          rw [← List.map_cons, ← List.map_take, ← List.map_drop, induction]

theorem chunk_map (f : α → β) (items : List α) (size : Nat) :
    chunk (items.map f) size = (chunk items size).map (List.map f) := by
  rw [chunk, List.length_map, chunkRounds_map, chunk]

/-- Escapes `%`, `_` and the backslash for LIKE. -/
def escapeLikePattern (value : String) : String :=
  String.ofList (value.toList.flatMap fun char =>
    if char = '\\' ∨ char = '%' ∨ char = '_' then ['\\', char] else [char])

/-- SQL's LIKE with the backslash as its escape character: pattern, then text. -/
def like : List Char → List Char → Bool
  | [], text => text.isEmpty
  | '%' :: pattern, text => text.tails.any (like pattern)
  | '_' :: pattern, text => !text.isEmpty && like pattern text.tail
  | '\\' :: char :: pattern, text => text.head? == some char && like pattern text.tail
  | char :: pattern, text => text.head? == some char && like pattern text.tail

/-- `text ILIKE pattern`. -/
def ilike [Platform] (pattern text : String) : Bool :=
  like (pattern.toList.map Platform.foldChar) (text.toList.map Platform.foldChar)

/-- The characters that mean something to LIKE. -/
def IsLikeSymbol (char : Char) : Prop :=
  char = '\\' ∨ char = '%' ∨ char = '_'

instance (char : Char) : Decidable (IsLikeSymbol char) :=
  inferInstanceAs (Decidable (_ ∨ _))

/-- `escapeLikePattern` on characters. -/
def escapeChars (chars : List Char) : List Char :=
  chars.flatMap fun char => if IsLikeSymbol char then ['\\', char] else [char]

theorem toList_escapeLikePattern (value : String) : (escapeLikePattern value).toList = escapeChars value.toList := by
  rw [escapeLikePattern, String.toList_ofList]
  rfl

theorem like_plain {char : Char} (plain : ¬ IsLikeSymbol char) (pattern text : List Char) :
    like (char :: pattern) text = (text.head? == some char && like pattern text.tail) := by
  rw [like]
  · exact fun percent => plain (.inr (.inl percent))
  · exact fun underscore => plain (.inr (.inr underscore))
  · exact fun _ _ backslash => absurd (.inl backslash) plain

/-- Escaped text matches itself only, and `%` the rest. -/
theorem like_escapeChars (term text : List Char) : like (escapeChars term ++ ['%']) text = term.isPrefixOf text := by
  induction term generalizing text with
  | nil => simp [escapeChars, like]
  | cons char term induction =>
      have first : like (escapeChars (char :: term) ++ ['%']) text =
          (text.head? == some char && like (escapeChars term ++ ['%']) text.tail) := by
        by_cases symbol : IsLikeSymbol char
        · simp [escapeChars, symbol, like]
        · simp [escapeChars, symbol, like_plain]
      rw [first, induction]
      cases text with
      | nil => rfl
      | cons other text =>
          simp only [List.head?_cons, List.tail_cons, List.isPrefixOf_cons_cons]
          congr 1
          grind

/-- Case is folded character by character, by ILIKE as by `toLowerCase`, and no
symbol of LIKE has a case. -/
structure FoldsCase [Platform] : Prop where
  toLowerCase : ∀ text, Platform.toLowerCase text = String.ofList (text.toList.map Platform.foldChar)
  symbol : ∀ char, IsLikeSymbol char → Platform.foldChar char = char
  plain : ∀ char, ¬ IsLikeSymbol char → ¬ IsLikeSymbol (Platform.foldChar char)

theorem FoldsCase.escapeChars [Platform] (folding : FoldsCase) (chars : List Char) :
    (escapeChars chars).map Platform.foldChar = Coverpin.escapeChars (chars.map Platform.foldChar) := by
  induction chars with
  | nil => rfl
  | cons char chars induction =>
      rw [List.map_cons, Coverpin.escapeChars, Coverpin.escapeChars, List.flatMap_cons, List.flatMap_cons, List.map_append]
      refine congrArg₂ (· ++ ·) ?_ induction
      by_cases symbol : IsLikeSymbol char
      · have backslash : Platform.foldChar '\\' = '\\' := folding.symbol _ (.inl rfl)
        rw [folding.symbol char symbol, if_pos symbol, List.map_cons, List.map_cons, backslash, folding.symbol char symbol]
        rfl
      · rw [if_neg symbol, if_neg (folding.plain char symbol)]
        rfl

/-- `name ILIKE '%' || escaped || '%'` is `name.toLowerCase().includes(term.toLowerCase())`. -/
theorem ilike_escapeLikePattern [Platform] (folding : FoldsCase) (term name : String) :
    ilike ("%" ++ escapeLikePattern term ++ "%") name =
      includes (Platform.toLowerCase term) (Platform.toLowerCase name) := by
  have percent : Platform.foldChar '%' = '%' := folding.symbol _ (.inr (.inl rfl))
  have pattern : ("%" ++ escapeLikePattern term ++ "%").toList = '%' :: (escapeChars term.toList ++ ['%']) := by
    rw [String.toList_append, String.toList_append, toList_escapeLikePattern]
    rfl
  rw [ilike, pattern, List.map_cons, List.map_append, folding.escapeChars, List.map_singleton, percent, like]
  rw [includes, folding.toLowerCase, folding.toLowerCase, String.toList_ofList, String.toList_ofList]
  exact congrArg (List.any _) (funext (like_escapeChars _))

end Coverpin
