import Gday.Lib.Text

/-! # Lines of a stream

What is complete of a stream and what is left behind the last line feed, for any beginning of
it: lines do not change when more arrives, and the rest begins the next one.  The lines of
encoded text are the encoded lines of the text. -/
set_option autoImplicit false
namespace Gday.Lib.Lines

section Lines

variable {α : Type} [DecidableEq α] (feed : α)

/-- The lines that have their line feed. -/
def complete (stream : List α) : List (List α) := (stream.splitOn feed).dropLast

/-- What follows the last line feed. -/
def rest (stream : List α) : List α :=
  (stream.splitOn feed).getLast (List.splitOn_ne_nil feed stream)

theorem splitOn_eq (stream : List α) :
    stream.splitOn feed = complete feed stream ++ [rest feed stream] :=
  (List.dropLast_append_getLast _).symm

theorem complete_rest_of_splitOn {stream last : List α} {lines : List (List α)}
    (split : stream.splitOn feed = lines ++ [last]) :
    complete feed stream = lines ∧ rest feed stream = last := by
  have both := (splitOn_eq feed stream).symm.trans split
  rw [List.append_inj_left' both rfl]
  exact ⟨rfl, List.singleton_inj.mp (List.append_inj_right' both rfl)⟩

/-- The rest of what came first and the first line of what comes next are one line. -/
theorem splitOn_append (stream more : List α) :
    ∃ first others, more.splitOn feed = first :: others ∧ (stream ++ more).splitOn feed =
      complete feed stream ++ (rest feed stream ++ first) :: others := by
  obtain ⟨first, others, split⟩ := List.exists_cons_of_ne_nil (List.splitOn_ne_nil feed more)
  refine ⟨first, others, split, ?_⟩
  induction stream with
  | nil =>
      have none_ : ([] : List α).splitOn feed = [] ++ [[]] := rfl
      obtain ⟨lines, last⟩ := complete_rest_of_splitOn feed none_
      rw [lines, last]
      exact split
  | cons char stream ih =>
      rw [List.cons_append, List.splitOn_cons_eq_if_modifyHead, ih]
      have own := List.splitOn_cons_eq_if_modifyHead (a := feed) char stream
      by_cases same : (char == feed) = true
      · rw [if_pos same] at own ⊢
        rw [splitOn_eq feed stream] at own
        obtain ⟨lines, last⟩ := complete_rest_of_splitOn feed (own.trans (List.cons_append).symm)
        rw [lines, last]
        rfl
      · rw [if_neg same] at own ⊢
        rw [splitOn_eq feed stream] at own
        cases before : complete feed stream with
        | nil =>
            rw [before] at own
            obtain ⟨lines, last⟩ := complete_rest_of_splitOn feed
              (own.trans (List.nil_append [char :: rest feed stream]).symm)
            rw [lines, last]
            rfl
        | cons line others' =>
            rw [before] at own
            obtain ⟨lines, last⟩ := complete_rest_of_splitOn feed
              (own.trans (List.cons_append (a := char :: line)).symm)
            rw [lines, last]
            rfl

theorem append_plain (stream more : List α) (plain : feed ∉ more) :
    complete feed (stream ++ more) = complete feed stream ∧
      rest feed (stream ++ more) = rest feed stream ++ more := by
  obtain ⟨first, others, split, whole⟩ := splitOn_append feed stream more
  rw [List.splitOn_eq_singleton plain] at split
  cases split
  exact complete_rest_of_splitOn feed whole

theorem append_feed (stream : List α) :
    complete feed (stream ++ [feed]) = complete feed stream ++ [rest feed stream] ∧
      rest feed (stream ++ [feed]) = [] := by
  obtain ⟨first, others, split, whole⟩ := splitOn_append feed stream [feed]
  have two : [feed].splitOn feed = [[], []] := by
    rw [List.splitOn_cons_eq_if_modifyHead, if_pos (beq_self_eq_true feed)]
    rfl
  rw [two] at split
  cases split
  rw [List.append_nil] at whole
  exact complete_rest_of_splitOn feed (whole.trans (List.append_cons ..))

/-- Of a beginning the complete lines are the first ones, and what is left begins the next. -/
theorem of_start {stream whole : List α} (start : stream <+: whole) :
    complete feed stream <+: complete feed whole ∧
      ∃ line, (whole.splitOn feed)[(complete feed stream).length]? = some line ∧
        rest feed stream <+: line := by
  obtain ⟨more, rfl⟩ := start
  obtain ⟨first, others, split, joined⟩ := splitOn_append feed stream more
  constructor
  · unfold complete
    rw [joined, List.dropLast_append_of_ne_nil (List.cons_ne_nil _ _)]
    exact List.prefix_append ..
  · refine ⟨rest feed stream ++ first, ?_, List.prefix_append ..⟩
    rw [joined, List.getElem?_append_right (Nat.le_refl _), Nat.sub_self]
    rfl

/-- Texts that were sent as a line each arrive as the lines that they are made of. -/
theorem complete_lines (texts : List (List α)) :
    complete feed (texts.flatMap (· ++ [feed])) = texts.flatMap (List.splitOn feed) ∧
      rest feed (texts.flatMap (· ++ [feed])) = [] := by
  induction texts using List.reverseRecOn with
  | nil => exact complete_rest_of_splitOn feed (rfl : ([] : List α).splitOn feed = [] ++ [[]])
  | append_singleton texts text ih =>
      obtain ⟨lines, last⟩ := ih
      rw [List.flatMap_append, List.flatMap_singleton, ← List.append_assoc,
        List.flatMap_append, List.flatMap_singleton]
      obtain ⟨complete_, rest_⟩ := append_feed feed (texts.flatMap (· ++ [feed]) ++ text)
      refine ⟨?_, rest_⟩
      obtain ⟨first, others, split, joined⟩ :=
        splitOn_append feed (texts.flatMap (· ++ [feed])) text
      rw [last, List.nil_append, ← split, lines, splitOn_eq feed (_ ++ text)] at joined
      rw [complete_, joined]

end Lines

/-! ## Lines of encoded text -/

section Encoded

variable {α β : Type} [DecidableEq α] [DecidableEq β] {feed : α} {mark : β} {encode : β → List α}

theorem splitOn_encode (one : encode mark = [feed])
    (others : ∀ char, char ≠ mark → feed ∉ encode char) (text : List β) :
    (text.flatMap encode).splitOn feed = (text.splitOn mark).map (List.flatMap encode) := by
  induction text with
  | nil => rfl
  | cons char text ih =>
      rw [List.flatMap_cons, List.splitOn_cons_eq_if_modifyHead]
      by_cases same : char = mark
      · subst same
        rw [one, List.singleton_append, List.splitOn_cons_eq_if_modifyHead,
          if_pos (beq_self_eq_true feed), if_pos (beq_self_eq_true char), ih]
        rfl
      · have plain : feed ∉ encode char := others char same
        obtain ⟨first, later, split, joined⟩ :=
          splitOn_append feed (encode char) (text.flatMap encode)
        obtain ⟨none_, all⟩ := complete_rest_of_splitOn feed
          ((List.splitOn_eq_singleton plain).trans (List.nil_append [encode char]).symm)
        rw [none_, all, List.nil_append] at joined
        rw [joined, if_neg (by simpa using same)]
        rw [ih] at split
        cases pieces : text.splitOn mark with
        | nil => exact absurd pieces (List.splitOn_ne_nil mark text)
        | cons piece pieces' =>
            rw [pieces, List.map_cons] at split
            cases split
            rfl

/-- Without the mark where it comes last. -/
def chomp {γ : Type} [DecidableEq γ] (mark : γ) (line : List γ) : List γ :=
  if line.getLast? = some mark then line.dropLast else line

theorem chomp_encode (one : encode mark = [feed])
    (others : ∀ char, char ≠ mark → encode char ≠ [] ∧ feed ∉ encode char) (line : List β) :
    chomp feed (line.flatMap encode) = (chomp mark line).flatMap encode := by
  cases line using List.reverseRecOn with
  | nil => rfl
  | append_singleton line char =>
      unfold chomp
      rw [List.flatMap_append, List.flatMap_singleton, List.getLast?_concat]
      by_cases same : char = mark
      · subst same
        rw [one, List.getLast?_concat, if_pos rfl, if_pos rfl, List.dropLast_concat,
          List.dropLast_concat]
      · obtain ⟨some_, plain⟩ := others char same
        obtain ⟨before, last, split⟩ := (List.eq_nil_or_concat (encode char)).resolve_left some_
        rw [List.concat_eq_append] at split
        have differs : last ≠ feed := by
          rintro rfl
          exact plain (by simp [split])
        rw [split, ← List.append_assoc, List.getLast?_concat,
          if_neg (by simpa using differs), if_neg (by simpa using same), List.flatMap_append,
          List.flatMap_singleton, split, List.append_assoc]

end Encoded

/-- `chars().flat_map` of the bytes of UTF-8. -/
def encodeText (text : List Char) : List UInt8 := text.flatMap String.utf8EncodeChar

theorem utf8_mark (mark : Char) (ascii : mark.toNat < 128) (char : Char) (other : char ≠ mark) :
    String.utf8EncodeChar char ≠ [] ∧
      UInt8.ofNat mark.toNat ∉ String.utf8EncodeChar char := by
  have small : (UInt8.ofNat mark.toNat).toNat = mark.toNat := by
    rw [UInt8.toNat_ofNat']
    omega
  by_cases one : char.toNat < 128
  · rw [Text.utf8_ascii char one]
    refine ⟨List.cons_ne_nil _ _, fun member => other ?_⟩
    have same := congrArg UInt8.toNat (List.mem_singleton.mp member)
    rw [small, UInt8.toNat_ofNat'] at same
    exact Char.toNat_inj.mp (by omega)
  · obtain ⟨some_, high⟩ := Text.utf8_other char (Nat.le_of_not_lt one)
    refine ⟨some_, fun member => ?_⟩
    have large := high _ member
    omega

theorem encodeText_splitOn (text : List Char) :
    (encodeText text).splitOn 10 = (text.splitOn '\n').map encodeText :=
  splitOn_encode (Text.utf8_ascii '\n' (by decide))
    (fun char other => (utf8_mark '\n' (by decide) char other).2) text

theorem encodeText_chomp (line : List Char) :
    chomp 13 (encodeText line) = encodeText (chomp '\r' line) :=
  chomp_encode (Text.utf8_ascii '\r' (by decide))
    (fun char other => utf8_mark '\r' (by decide) char other) line

end Gday.Lib.Lines
