/-
This file proves the user program `user/grep.c`: that its matcher agrees with the meaning of its
patterns, and when its output is that of the whole input.

The matcher goes from the left through the pattern and, for a star, back through the text. What it
accepts is the language of the pattern: a list of pieces, each of which stands for a word of the text.

The loop over the input keeps the beginning of a line for the next `read`, but not when it has found
no newline at all: it then drops what the buffer holds. So the output is right for every pattern
exactly when every chunk that `read` delivers has a newline in it.
-/

import Mathlib

namespace Xk.Grep

/-! ### The matcher -/

/-- `'^'`. -/
def caret : UInt8 := 94

/-- `'$'`. -/
def dollar : UInt8 := 36

/-- `'.'`. -/
def dot : UInt8 := 46

/-- `'*'`. -/
def asterisk : UInt8 := 42

/-- `'\n'`. -/
def newline : UInt8 := 10

/-- `matchstar(c, re, text)`, where `here` is `matchhere` for `re`. A string is the list of its bytes
in front of the NUL. -/
def matchstar (here : List UInt8 → Bool) (c : UInt8) : List UInt8 → Bool
  | [] => here []
  | byte :: text => here (byte :: text) || (byte = c || c = dot) && matchstar here c text

/-- The last test of `matchhere`, for a character that is not special, where `here` is `matchhere` for
the rest of the pattern. -/
def matchone (here : List UInt8 → Bool) (c : UInt8) : List UInt8 → Bool
  | [] => false
  | byte :: text => (c = dot || c = byte) && here text

/-- `matchhere(re, text)`. -/
def matchhere : List UInt8 → List UInt8 → Bool
  | [], _ => true
  | [c], text => if c = dollar then text.isEmpty else matchone (matchhere []) c text
  | c :: d :: re, text =>
    if d = asterisk then matchstar (matchhere re) c text else matchone (matchhere (d :: re)) c text

/-- The loop of `match`. -/
def matchAny (here : List UInt8 → Bool) : List UInt8 → Bool
  | [] => here []
  | byte :: text => here (byte :: text) || matchAny here text

/-- `match(re, text)`. -/
def matchText (re text : List UInt8) : Bool :=
  if re.head? = some caret then matchhere re.tail text else matchAny (matchhere re) text

/-! ### The meaning of a pattern -/

/-- A piece of a pattern. -/
inductive Piece
  | star (c : UInt8)
  | one (c : UInt8)
  | atEnd

/-- A pattern as a list of pieces: the star is read first, and a dollar sign is special at the end. -/
def pieces : List UInt8 → List Piece
  | [] => []
  | [c] => if c = dollar then [.atEnd] else [.one c]
  | c :: d :: re => if d = asterisk then .star c :: pieces re else .one c :: pieces (d :: re)

/-- A character of a pattern stands for a byte. -/
def Covers (c byte : UInt8) : Prop := c = dot ∨ byte = c

/-- A piece stands for a word that is followed by `rest`. -/
def Piece.Spells : Piece → List UInt8 → List UInt8 → Prop
  | star c, word, _ => ∀ byte ∈ word, Covers c byte
  | one c, word, _ => ∃ byte, word = [byte] ∧ Covers c byte
  | atEnd, word, rest => word = [] ∧ rest = []

/-- The text begins with a word of the language of the pieces: the words that they stand for, one
after the other. -/
def Begins : List Piece → List UInt8 → Prop
  | [], _ => True
  | piece :: others, text =>
    ∃ word rest, text = word ++ rest ∧ piece.Spells word rest ∧ Begins others rest

theorem matchstar_iff (here : List UInt8 → Bool) (c : UInt8) (text : List UInt8) :
    matchstar here c text = true ↔
      ∃ word rest, text = word ++ rest ∧ (∀ byte ∈ word, Covers c byte) ∧ here rest = true := by
  induction text with
  | nil =>
    constructor
    · exact fun found => ⟨[], [], rfl, fun _ member => absurd member List.not_mem_nil, found⟩
    · rintro ⟨word, rest, isText, -, found⟩
      rwa [(List.append_eq_nil_iff.mp isText.symm).2] at found
  | cons byte text inductionHypothesis =>
    have covers : (decide (byte = c) || decide (c = dot)) = true ↔ Covers c byte := by
      rw [Bool.or_eq_true, decide_eq_true_eq, decide_eq_true_eq, Covers, or_comm]
    rw [matchstar, Bool.or_eq_true, Bool.and_eq_true, covers, inductionHypothesis]
    constructor
    · rintro (found | ⟨covered, word, rest, rfl, others, found⟩)
      · exact ⟨[], byte :: text, rfl, fun _ member => absurd member List.not_mem_nil, found⟩
      · exact ⟨byte :: word, rest, rfl, List.forall_mem_cons.mpr ⟨covered, others⟩, found⟩
    · rintro ⟨word, rest, isText, all, found⟩
      cases word with
      | nil =>
        rw [List.nil_append] at isText
        exact Or.inl (isText ▸ found)
      | cons first word =>
        obtain ⟨rfl, rfl⟩ := List.cons.inj isText
        obtain ⟨covered, others⟩ := List.forall_mem_cons.mp all
        exact Or.inr ⟨covered, word, rest, rfl, others, found⟩

/-- A character that is not special takes one byte. -/
theorem matchone_iff {here : List UInt8 → Bool} {others : List Piece}
    (isHere : ∀ text, here text = true ↔ Begins others text) (c : UInt8) (text : List UInt8) :
    matchone here c text = true ↔ Begins (.one c :: others) text := by
  have covers (byte : UInt8) : (decide (c = dot) || decide (c = byte)) = true ↔ Covers c byte := by
    rw [Bool.or_eq_true, decide_eq_true_eq, decide_eq_true_eq, Covers, @eq_comm _ c byte]
  constructor
  · intro found
    cases text with
    | nil => cases found
    | cons byte text =>
      rw [matchone, Bool.and_eq_true, covers, isHere] at found
      exact ⟨[byte], text, rfl, ⟨byte, rfl, found.1⟩, found.2⟩
  · rintro ⟨word, rest, rfl, ⟨byte, rfl, covered⟩, begins⟩
    rw [List.singleton_append, matchone, Bool.and_eq_true, covers, isHere]
    exact ⟨covered, begins⟩

/-- `matchhere` decides whether the text begins with a word of the pattern. -/
theorem matchhere_iff (re text : List UInt8) :
    matchhere re text = true ↔ Begins (pieces re) text := by
  induction re using pieces.induct generalizing text with
  | case1 => exact iff_of_true rfl trivial
  | case2 =>
    rw [matchhere, pieces, if_pos rfl, if_pos rfl, List.isEmpty_iff]
    constructor
    · rintro rfl
      exact ⟨[], [], rfl, ⟨rfl, rfl⟩, trivial⟩
    · rintro ⟨word, rest, rfl, ⟨rfl, rfl⟩, -⟩
      rfl
  | case3 c plain =>
    rw [matchhere, pieces, if_neg plain, if_neg plain]
    exact @matchone_iff _ [] (fun _ => iff_of_true rfl trivial) c text
  | case4 c re inductionHypothesis =>
    rw [matchhere, pieces, if_pos rfl, if_pos rfl, matchstar_iff, Begins]
    simp only [inductionHypothesis, Piece.Spells]
  | case5 c d re plain inductionHypothesis =>
    rw [matchhere, pieces, if_neg plain, if_neg plain]
    exact matchone_iff inductionHypothesis c text

theorem matchAny_iff (here : List UInt8 → Bool) (text : List UInt8) :
    matchAny here text = true ↔ ∃ suffix, suffix <:+ text ∧ here suffix = true := by
  induction text with
  | nil =>
    constructor
    · exact fun found => ⟨[], List.suffix_rfl, found⟩
    · rintro ⟨suffix, isSuffix, found⟩
      rwa [List.suffix_nil.mp isSuffix] at found
  | cons byte text inductionHypothesis =>
    rw [matchAny, Bool.or_eq_true, inductionHypothesis]
    constructor
    · rintro (found | ⟨suffix, isSuffix, found⟩)
      · exact ⟨byte :: text, List.suffix_rfl, found⟩
      · exact ⟨suffix, isSuffix.trans (List.suffix_cons byte text), found⟩
    · rintro ⟨suffix, isSuffix, found⟩
      rcases List.suffix_cons_iff.mp isSuffix with rfl | isSuffix
      · exact Or.inl found
      · exact Or.inr ⟨suffix, isSuffix, found⟩

/-- **The matcher agrees with the meaning of its patterns.** For every pattern and every text,
`match` finds the pattern exactly when some suffix of the text, or the text itself for a pattern that
starts with `'^'`, begins with a word of its language. -/
theorem matchText_iff (re text : List UInt8) :
    matchText re text = true ↔
      if re.head? = some caret then Begins (pieces re.tail) text
      else ∃ suffix, suffix <:+ text ∧ Begins (pieces re) suffix := by
  unfold matchText
  by_cases anchored : re.head? = some caret
  · rw [if_pos anchored, if_pos anchored, matchhere_iff]
  · rw [if_neg anchored, if_neg anchored, matchAny_iff]
    simp only [matchhere_iff]

example : matchText [caret, 97, asterisk, dot, dollar] [97, 97, 98] = true := by decide

/-! ### The loop over the input -/

/-- `strchr(s, c)` on the bytes from `s` on: the distance to the first `c` in front of the NUL. -/
def strchr (s : List UInt8) (c : UInt8) : Option Nat := (s.takeWhile (· ≠ 0)).findIdx? (· = c)

/-- The inner loop of `grep` on the bytes of `buf` from `p` on: what it writes, and what is left of
them where it finds no newline any more. -/
def lineLoop (pattern : List UInt8) : Nat → List UInt8 → List UInt8 × List UInt8
  | 0, p => ([], p)
  | turns + 1, p =>
    match strchr p newline with
    | none => ([], p)
    | some q =>
      let (written, left) := lineLoop pattern turns (p.drop (q + 1))
      ((if matchText pattern (p.take q) then p.take (q + 1) else []) ++ written, left)

/-- A turn of the loop of `grep`, with the `m` bytes that it has kept and the chunk behind them. What
is left is kept, unless `p == buf`. -/
def grepTurn (pattern kept chunk : List UInt8) : List UInt8 × List UInt8 :=
  let buf := kept ++ chunk
  let (written, left) := lineLoop pattern buf.length buf
  (written, if left.length = buf.length then [] else left)

/-- The loop of `grep(pattern, fd)`, where `read` delivers the chunks: what it writes. -/
def grepLoop (pattern : List UInt8) : List UInt8 → List (List UInt8) → List UInt8
  | _, [] => []
  | kept, chunk :: chunks =>
    let (written, left) := grepTurn pattern kept chunk
    written ++ grepLoop pattern left chunks

/-- Every chunk is one that `read(fd, buf + m, sizeof(buf) - m - 1)` can return. -/
def Delivers (pattern : List UInt8) : List UInt8 → List (List UInt8) → Prop
  | _, [] => True
  | kept, chunk :: chunks =>
    chunk ≠ [] ∧ chunk.length ≤ 1024 - kept.length - 1 ∧
      Delivers pattern (grepTurn pattern kept chunk).2 chunks

/-! ### The lines of the input -/

/-- The lines of a text that follows the beginning of a line, and what comes after the last newline. -/
def cutLines : List UInt8 → List UInt8 → List (List UInt8) × List UInt8
  | kept, [] => ([], kept)
  | kept, byte :: text =>
    if byte = newline then
      let (lines, left) := cutLines [] text
      (kept :: lines, left)
    else cutLines (kept ++ [byte]) text

/-- The lines of a text, each without its newline. -/
def lines (text : List UInt8) : List (List UInt8) := (cutLines [] text).1

/-- The lines that match, with their newlines. -/
def printed (pattern : List UInt8) (lines : List (List UInt8)) : List UInt8 :=
  (lines.filter fun line => matchText pattern line).flatMap (· ++ [newline])

/-- An input that arrives in chunks: it has no NUL, its lines are shorter than 1023 bytes, and all of
them end in a newline. -/
structure Arrives (input : List UInt8) (chunks : List (List UInt8)) : Prop where
  whole : chunks.flatten = input
  noNul : 0 ∉ input
  short : ∀ line ∈ lines input, line.length < 1023
  ended : input = [] ∨ input.getLast? = some newline
  delivers : ∀ pattern, Delivers pattern [] chunks

theorem printed_append (pattern : List UInt8) (first second : List (List UInt8)) :
    printed pattern (first ++ second) = printed pattern first ++ printed pattern second := by
  rw [printed, List.filter_append, List.flatMap_append]
  rfl

theorem cutLines_append (kept first second : List UInt8) :
    cutLines kept (first ++ second) =
      ((cutLines kept first).1 ++ (cutLines (cutLines kept first).2 second).1,
        (cutLines (cutLines kept first).2 second).2) := by
  induction first generalizing kept with
  | nil => rfl
  | cons byte first inductionHypothesis =>
    rw [List.cons_append, cutLines, cutLines]
    split_ifs with isNewline
    · simp only [inductionHypothesis [], List.cons_append]
    · exact inductionHypothesis (kept ++ [byte])

theorem cutLines_of_notMem {text : List UInt8} (absent : newline ∉ text) (kept : List UInt8) :
    cutLines kept text = ([], kept ++ text) := by
  induction text generalizing kept with
  | nil => rw [cutLines, List.append_nil]
  | cons byte text inductionHypothesis =>
    rw [List.mem_cons, not_or] at absent
    rw [cutLines, if_neg (Ne.symm absent.1), inductionHypothesis absent.2, List.append_assoc]
    rfl

/-- What comes after the last newline has none. -/
theorem cutLines_left {kept : List UInt8} (absent : newline ∉ kept) (text : List UInt8) :
    newline ∉ (cutLines kept text).2 := by
  induction text generalizing kept with
  | nil => exact absent
  | cons byte text inductionHypothesis =>
    rw [cutLines]
    split_ifs with isNewline
    · exact inductionHypothesis List.not_mem_nil
    · refine inductionHypothesis fun member => ?_
      rcases List.mem_append.mp member with isKept | isByte
      · exact absent isKept
      · exact isNewline (List.mem_singleton.mp isByte).symm

/-- No byte is lost in cutting a text into lines. -/
theorem cutLines_whole (kept text : List UInt8) :
    (cutLines kept text).1.flatMap (· ++ [newline]) ++ (cutLines kept text).2 = kept ++ text := by
  induction text generalizing kept with
  | nil => exact (List.append_nil kept).symm
  | cons byte text inductionHypothesis =>
    rw [cutLines]
    split_ifs with isNewline
    · rw [List.flatMap_cons, List.append_assoc, inductionHypothesis, isNewline, List.append_assoc]
      rfl
    · rw [inductionHypothesis, List.append_assoc]
      rfl

/-! ### What the loops do -/

/-- Where a text without a NUL has a newline, `strchr` finds the first. -/
theorem strchr_cases {text : List UInt8} (noNul : 0 ∉ text) :
    (strchr text newline = none ∧ newline ∉ text) ∨
      ∃ line rest, text = line ++ newline :: rest ∧ newline ∉ line ∧
        strchr text newline = some line.length := by
  have whole : text.takeWhile (· ≠ 0) = text := by
    rw [List.takeWhile_eq_self_iff]
    intro byte member
    exact decide_eq_true fun isNul => noNul (isNul ▸ member)
  rw [strchr, whole]
  cases found : text.findIdx? (· = newline) with
  | none =>
    refine Or.inl ⟨rfl, fun member => ?_⟩
    have none := List.findIdx?_eq_none_iff.mp found newline member
    simp at none
  | some index =>
    obtain ⟨bound, isNewline, before⟩ := List.findIdx?_eq_some_iff_getElem.mp found
    refine Or.inr ⟨text.take index, text.drop (index + 1), ?_, fun member => ?_, ?_⟩
    · rw [← of_decide_eq_true isNewline, List.getElem_cons_drop, List.take_append_drop]
    · obtain ⟨earlier, inside, isEarlier⟩ := List.getElem_of_mem member
      rw [List.length_take] at inside
      have notEarlier := before earlier (by omega)
      rw [List.getElem_take] at isEarlier
      exact notEarlier (decide_eq_true isEarlier)
    · rw [List.length_take_of_le bound.le]

theorem lineLoop_eq (pattern : List UInt8) {turns : Nat} {text : List UInt8}
    (enough : text.length ≤ turns) (noNul : 0 ∉ text) :
    lineLoop pattern turns text = (printed pattern (lines text), (cutLines [] text).2) := by
  induction turns generalizing text with
  | zero =>
    rw [List.eq_nil_of_length_eq_zero (Nat.le_zero.mp enough)]
    rfl
  | succ turns inductionHypothesis =>
    rw [lineLoop]
    rcases strchr_cases noNul with ⟨none, absent⟩ | ⟨line, rest, rfl, absent, found⟩
    · rw [none, lines, cutLines_of_notMem absent]
      rfl
    · have rests : (line ++ newline :: rest).drop (line.length + 1) = rest := by
        rw [List.drop_append, List.drop_eq_nil_of_le (Nat.le_succ _), Nat.add_sub_cancel_left]
        rfl
      have noNulRest : 0 ∉ rest := fun member =>
        noNul (List.mem_append_right _ (List.mem_cons_of_mem _ member))
      rw [List.length_append, List.length_cons] at enough
      have later := @inductionHypothesis rest (by omega) noNulRest
      have cut : cutLines [] (line ++ newline :: rest) =
          (line :: (cutLines [] rest).1, (cutLines [] rest).2) := by
        rw [cutLines_append, cutLines_of_notMem absent]
        rfl
      rw [found, lines, cut]
      dsimp only
      rw [rests, later, List.take_left]
      have written : (line ++ newline :: rest).take (line.length + 1) = line ++ [newline] := by
        rw [List.take_length_add_append]
        rfl
      rw [written, printed, printed, List.filter_cons]
      split_ifs <;> rfl

/-- A turn with a newline in the chunk writes the lines that end there and keeps the rest. -/
theorem grepTurn_of_mem (pattern : List UInt8) {kept chunk : List UInt8}
    (noNul : 0 ∉ kept ++ chunk) (has : newline ∈ chunk) :
    grepTurn pattern kept chunk =
      (printed pattern (lines (kept ++ chunk)), (cutLines [] (kept ++ chunk)).2) := by
  have shorter : (cutLines [] (kept ++ chunk)).2.length ≠ (kept ++ chunk).length := by
    intro same
    have whole := cutLines_whole [] (kept ++ chunk)
    rw [List.nil_append] at whole
    have isWhole : (cutLines [] (kept ++ chunk)).2 = kept ++ chunk :=
      List.IsSuffix.eq_of_length ⟨_, whole⟩ same
    exact cutLines_left List.not_mem_nil (kept ++ chunk)
      (isWhole.symm ▸ List.mem_append_right kept has)
  rw [grepTurn, lineLoop_eq pattern le_rfl noNul]
  dsimp only
  rw [if_neg shorter]

/-- A turn without a newline drops everything. -/
theorem grepTurn_of_notMem (pattern : List UInt8) {kept chunk : List UInt8}
    (noNul : 0 ∉ kept ++ chunk) (absent : newline ∉ kept ++ chunk) :
    grepTurn pattern kept chunk = ([], []) := by
  rw [grepTurn, lineLoop_eq pattern le_rfl noNul, lines, cutLines_of_notMem absent]
  dsimp only
  rw [List.nil_append, if_pos rfl]
  rfl

theorem noNul_left {text rest : List UInt8} (noNul : 0 ∉ text ++ rest) :
    0 ∉ (cutLines [] text).2 ++ rest := by
  intro isNul
  rcases List.mem_append.mp isNul with isLeft | isRest
  · have leftPart : (cutLines [] text).2 <:+ text := ⟨_, cutLines_whole [] text⟩
    exact noNul (List.mem_append_left _ (leftPart.subset isLeft))
  · exact noNul (List.mem_append_right _ isRest)

theorem grepLoop_of_newlines (pattern : List UInt8) {kept : List UInt8}
    {chunks : List (List UInt8)} (absent : newline ∉ kept) (noNul : 0 ∉ kept ++ chunks.flatten)
    (all : ∀ chunk ∈ chunks, newline ∈ chunk) :
    grepLoop pattern kept chunks = printed pattern (lines (kept ++ chunks.flatten)) := by
  induction chunks generalizing kept with
  | nil =>
    rw [List.flatten_nil, List.append_nil, lines, cutLines_of_notMem absent]
    rfl
  | cons chunk chunks inductionHypothesis =>
    obtain ⟨has, others⟩ := List.forall_mem_cons.mp all
    rw [List.flatten_cons, ← List.append_assoc] at noNul ⊢
    have turned := grepTurn_of_mem pattern
      (fun isNul => noNul (List.mem_append_left _ isNul)) has
    have leftAbsent := cutLines_left List.not_mem_nil (kept ++ chunk)
    have again : cutLines [] ((cutLines [] (kept ++ chunk)).2 ++ chunks.flatten) =
        cutLines (cutLines [] (kept ++ chunk)).2 chunks.flatten := by
      rw [cutLines_append [], cutLines_of_notMem leftAbsent]
      rfl
    rw [grepLoop, turned]
    dsimp only
    rw [inductionHypothesis leftAbsent (noNul_left noNul) others, lines, lines, lines, again,
      cutLines_append [] (kept ++ chunk), printed_append]

/-! ### Bytes that are lost -/

theorem matchText_nil (text : List UInt8) : matchText [] text = true :=
  (matchText_iff [] text).mpr ⟨[], List.nil_suffix, trivial⟩

/-- The empty pattern writes all lines. -/
theorem printed_nil (lines : List (List UInt8)) :
    printed [] lines = lines.flatMap (· ++ [newline]) := by
  rw [printed, List.filter_eq_self.mpr fun line _ => matchText_nil line]

/-- With the empty pattern no more than the input is written, and less where a chunk has no
newline. -/
theorem grepLoop_length {kept : List UInt8} {chunks : List (List UInt8)} (absent : newline ∉ kept)
    (noNul : 0 ∉ kept ++ chunks.flatten) :
    (grepLoop [] kept chunks).length ≤ (kept ++ chunks.flatten).length ∧
      ((∃ chunk ∈ chunks, chunk ≠ [] ∧ newline ∉ chunk) →
        (grepLoop [] kept chunks).length < (kept ++ chunks.flatten).length) := by
  induction chunks generalizing kept with
  | nil => exact ⟨Nat.zero_le _, fun ⟨_, member, _⟩ => absurd member List.not_mem_nil⟩
  | cons chunk chunks inductionHypothesis =>
    rw [List.flatten_cons, ← List.append_assoc] at noNul ⊢
    have noNulNow : 0 ∉ kept ++ chunk := fun isNul => noNul (List.mem_append_left _ isNul)
    rw [grepLoop, List.length_append]
    by_cases has : newline ∈ chunk
    · obtain ⟨most, less⟩ := inductionHypothesis
        (cutLines_left List.not_mem_nil (kept ++ chunk)) (noNul_left noNul)
      have total := congrArg List.length (cutLines_whole [] (kept ++ chunk))
      rw [List.nil_append, List.length_append] at total
      rw [grepTurn_of_mem [] noNulNow has]
      dsimp only
      rw [printed_nil, lines, List.length_append]
      rw [List.length_append] at most less
      refine ⟨by omega, ?_⟩
      rintro ⟨dropped, member, nonempty, without⟩
      have rest := less ⟨dropped, (List.mem_cons.mp member).resolve_left fun isChunk =>
        without (isChunk ▸ has), nonempty, without⟩
      omega
    · obtain ⟨most, less⟩ := @inductionHypothesis [] List.not_mem_nil fun isNul =>
        noNul (List.mem_append_right _ isNul)
      rw [grepTurn_of_notMem [] noNulNow
        fun member => (List.mem_append.mp member).elim absent has]
      dsimp only
      rw [List.nil_append] at most less
      rw [List.length_append, List.length_append, List.length_nil]
      refine ⟨by omega, ?_⟩
      rintro ⟨dropped, member, nonempty, without⟩
      rcases List.mem_cons.mp member with rfl | later
      · have some := List.length_pos_of_ne_nil nonempty
        omega
      · have rest := less ⟨dropped, later, nonempty, without⟩
        omega

theorem Delivers.nonempty {pattern kept : List UInt8} {chunks : List (List UInt8)}
    (delivers : Delivers pattern kept chunks) : ∀ chunk ∈ chunks, chunk ≠ [] := by
  induction chunks generalizing kept with
  | nil => exact fun _ member => absurd member List.not_mem_nil
  | cons chunk chunks inductionHypothesis =>
    exact List.forall_mem_cons.mpr ⟨delivers.1, inductionHypothesis delivers.2.2⟩

/-- The lines of an input that ends in a newline are all of it. -/
theorem Arrives.printed_nil {input : List UInt8} {chunks : List (List UInt8)}
    (arrives : Arrives input chunks) : printed [] (lines input) = input := by
  have whole := cutLines_whole [] input
  rw [List.nil_append, ← Grep.printed_nil] at whole
  rcases arrives.ended with rfl | ended
  · rfl
  · obtain ⟨front, rfl⟩ := List.getLast?_eq_some_iff.mp ended
    have nothing : (cutLines [] (front ++ [newline])).2 = [] := by
      rw [cutLines_append]
      rfl
    rwa [nothing, List.append_nil] at whole

/-- **When the output does not depend on how the input arrives.** For every input without NUL whose
lines are shorter than 1023 bytes and end in a newline, and every way `read` may split it, `grep`
writes exactly the lines that match, for every pattern, if and only if every chunk has a newline. -/
theorem grep_writes_iff {input : List UInt8} {chunks : List (List UInt8)}
    (arrives : Arrives input chunks) :
    (∀ pattern, grepLoop pattern [] chunks = printed pattern (lines input)) ↔
      ∀ chunk ∈ chunks, newline ∈ chunk := by
  have noNul : 0 ∉ [] ++ chunks.flatten := by
    rw [List.nil_append, arrives.whole]
    exact arrives.noNul
  constructor
  · intro writes chunk member
    by_contra without
    have less := (grepLoop_length List.not_mem_nil noNul).2
      ⟨chunk, member, (arrives.delivers []).nonempty chunk member, without⟩
    rw [writes, arrives.printed_nil, List.nil_append, arrives.whole] at less
    exact less.false
  · intro all pattern
    rw [grepLoop_of_newlines pattern List.not_mem_nil noNul all, List.nil_append, arrives.whole]

/-- Two lines in two chunks that are cut behind the first newline and the beginning of the second
line. -/
theorem grep_writes_iff_twoLines :
    grepLoop [99] [] [[97, newline, 98], [99, newline]] =
      printed [99] (lines [97, newline, 98, 99, newline]) := by
  refine (grep_writes_iff ⟨rfl, by decide, by decide, Or.inr rfl, fun pattern => ?_⟩).mpr
    (by decide) [99]
  rw [Delivers, grepTurn_of_mem pattern (by decide) (by decide)]
  exact ⟨by decide, by decide, by decide,
    show 2 ≤ 1024 - (cutLines [] [97, newline, 98]).2.length - 1 by decide, trivial⟩

/-- One line in two chunks: its beginning is lost. -/
theorem grep_lostBeginning :
    grepLoop [] [] [[97], [98, newline]] = [98, newline] ∧
      printed [] (lines [97, 98, newline]) = [97, 98, newline] := by
  decide

end Xk.Grep
