import AttestedKey.Pem
import AttestedKey.Proofs.Entries
import AttestedKey.Proofs.Query
import Mathlib.Data.List.DropRight
import Mathlib.Data.List.TakeWhile

/-! Octets written as text blocks: base64 between two marks, in lines of 64 characters. A block
that has been written is the next one of whatever text it begins (`Pem.next_write`), and of a row
of blocks all are read, in order (`Pem.all_flatMap_write`). -/

namespace AttestedKey

namespace Base64

variable (a : Alphabet)

/-- The values of the characters that octets are written as, without the padding. -/
def sextets : Octets → List Nat
  | [] => []
  | [x] =>
    let n := x.toNat * 16
    [n / 64, n % 64]
  | [x, y] =>
    let n := (x.toNat * 256 + y.toNat) * 4
    [n / 4096, n / 64 % 64, n % 64]
  | x :: y :: z :: rest =>
    let n := (x.toNat * 256 + y.toNat) * 256 + z.toNat
    n / 262144 :: n / 4096 % 64 :: n / 64 % 64 :: n % 64 :: sextets rest

def fillers : Octets → Nat
  | [] => 0
  | [_] => 2
  | [_, _] => 1
  | _ :: _ :: _ :: rest => fillers rest

theorem encodeChars_eq (bs : Octets) :
    encodeChars a bs = (sextets bs).map a.char ++ List.replicate (fillers bs) '=' := by
  induction bs using encodeChars.induct with
  | case1 => rfl
  | case2 x => rfl
  | case3 x y => rfl
  | case4 x y z rest ih => rw [encodeChars, sextets, fillers, ih]; rfl

theorem lt_of_mem_sextets {bs : Octets} {n : Nat} (h : n ∈ sextets bs) : n < 64 := by
  induction bs using encodeChars.induct with
  | case1 => cases h
  | case2 x =>
    have hx := x.toNat_lt
    simp only [sextets, List.mem_cons, List.not_mem_nil, or_false] at h
    omega
  | case3 x y =>
    have hx := x.toNat_lt
    have hy := y.toNat_lt
    simp only [sextets, List.mem_cons, List.not_mem_nil, or_false] at h
    omega
  | case4 x y z rest ih =>
    have hx := x.toNat_lt
    have hy := y.toNat_lt
    have hz := z.toNat_lt
    simp only [sextets, List.mem_cons] at h
    rcases h with h | h | h | h | h
    · omega
    · omega
    · omega
    · omega
    · exact ih h

/-- Three octets make up a group of four characters. -/
theorem exists_groups (bs : Octets) :
    ∃ n, (sextets bs).length + fillers bs = 4 * n ∧ bs.length + fillers bs = 3 * n ∧
      fillers bs ≤ 2 := by
  induction bs using encodeChars.induct with
  | case1 => exact ⟨0, rfl, rfl, Nat.zero_le _⟩
  | case2 x => exact ⟨1, rfl, rfl, le_rfl⟩
  | case3 x y => exact ⟨1, rfl, rfl, Nat.le_succ 1⟩
  | case4 x y z rest ih =>
    obtain ⟨n, hchars, hoctets, hle⟩ := ih
    refine ⟨n + 1, ?_, ?_, hle⟩
    · simp only [sextets, fillers, List.length_cons]
      omega
    · simp only [fillers, List.length_cons]
      omega

end Base64

namespace Pem

open Base64 (sextets fillers)

/-! ### The characters -/

def isPlain (b : UInt8) : Bool := isVisible b && b != 0x2D && b != 0x3A

def digit (n : Nat) : UInt8 := UInt8.ofNat (Base64.Alphabet.standard.char n).toNat

def encoded (content : Octets) : Octets :=
  (Base64.encodeChars .standard content).map fun c => UInt8.ofNat c.toNat

theorem encoded_eq (content : Octets) :
    encoded content = (sextets content).map digit ++ List.replicate (fillers content) 0x3D := by
  rw [encoded, Base64.encodeChars_eq, List.map_append, List.map_map, List.map_replicate]
  rfl

theorem digit_spec {n : Nat} (h : n < 64) : isPlain (digit n) = true ∧ digit n ≠ 0x3D ∧
    Base64.Alphabet.standard.value? (Char.ofNat (digit n).toNat) = some n := by
  have hall : ∀ n < 64, isPlain (digit n) = true ∧ digit n ≠ 0x3D ∧
      Base64.Alphabet.standard.value? (Char.ofNat (digit n).toNat) = some n := by
    decide
  exact hall n h

theorem isPlain_of_mem_encoded {content : Octets} {b : UInt8} (h : b ∈ encoded content) :
    isPlain b = true := by
  rw [encoded_eq, List.mem_append] at h
  rcases h with h | h
  · obtain ⟨n, hn, rfl⟩ := List.mem_map.1 h
    exact (digit_spec (Base64.lt_of_mem_sextets hn)).1
  · rw [List.eq_of_mem_replicate h]
    rfl

/-! ### Base64 is undone -/

theorem groupsOnto_sextets (found content : Octets) :
    groupsOnto found (sextets content ++ List.replicate (fillers content) 0) =
      found.reverse ++ (content ++ List.replicate (fillers content) 0) := by
  induction content using Base64.encodeChars.induct generalizing found with
  | case1 => simp [sextets, fillers, groupsOnto]
  | case2 x =>
    have hx := x.toNat_lt
    simp only [sextets, fillers, List.replicate, List.cons_append, List.nil_append, groupsOnto]
    rw [Utf8.ofNat_eq (b := 0) (by simp; omega), Utf8.ofNat_eq (b := 0) (by simp; omega),
      Utf8.ofNat_eq (b := x) (by omega)]
    simp
  | case3 x y =>
    have hx := x.toNat_lt
    have hy := y.toNat_lt
    simp only [sextets, fillers, List.replicate, List.cons_append, List.nil_append, groupsOnto]
    rw [Utf8.ofNat_eq (b := 0) (by simp; omega), Utf8.ofNat_eq (b := y) (by omega),
      Utf8.ofNat_eq (b := x) (by omega)]
    simp
  | case4 x y z rest ih =>
    have hx := x.toNat_lt
    have hy := y.toNat_lt
    have hz := z.toNat_lt
    simp only [sextets, fillers, List.cons_append, groupsOnto]
    rw [ih, Utf8.ofNat_eq (b := z) (by omega), Utf8.ofNat_eq (b := y) (by omega),
      Utf8.ofNat_eq (b := x) (by omega)]
    simp

theorem mapM_value?_digit {ns : List Nat} (h : ∀ n ∈ ns, n < 64) :
    (ns.map digit).mapM (fun b => Base64.Alphabet.standard.value? (Char.ofNat b.toNat)) =
      some ns := by
  induction ns with
  | nil => rfl
  | cons n ns ih =>
    obtain ⟨hn, hns⟩ := List.forall_mem_cons.1 h
    rw [List.map_cons, List.mapM_cons, (digit_spec hn).2.2, ih hns]
    rfl

/-- Text is decoded whatever blanks stand in it. -/
theorem decode?_eq_some {text content : Octets}
    (h : (text.takeWhile (· != 0x2D)).filter (fun b => !isBlank b) = encoded content) :
    decode? text = some content := by
  have hsextets : ∀ n ∈ sextets content, n < 64 := fun _ => Base64.lt_of_mem_sextets
  have hdigits : ∀ b ∈ (sextets content).map digit, (b != 0x3D) = true := by
    intro b hb
    obtain ⟨n, hn, rfl⟩ := List.mem_map.1 hb
    exact bne_iff_ne.2 (digit_spec (hsextets n hn)).2.1
  have hpadding : ∀ b ∈ List.replicate (fillers content) (0x3D : UInt8), (b != 0x3D) = false := by
    intro b hb
    rw [List.eq_of_mem_replicate hb]
    rfl
  have htake : (encoded content).takeWhile (· != 0x3D) = (sextets content).map digit := by
    rw [encoded_eq, List.takeWhile_append_of_pos hdigits]
    cases fillers content <;> simp [List.replicate]
  have hdrop : (encoded content).dropWhile (· != 0x3D) = List.replicate (fillers content) 0x3D := by
    rw [encoded_eq, List.dropWhile_append_of_pos hdigits]
    cases fillers content <;> simp [List.replicate]
  have hlength : (encoded content).length = (sextets content).length + fillers content := by
    rw [encoded_eq, List.length_append, List.length_map, List.length_replicate]
  obtain ⟨n, hchars, hoctets, hle⟩ := Base64.exists_groups content
  unfold decode?
  simp only [h, htake, hdrop, mapM_value?_digit hsextets, Option.bind_eq_bind, Option.bind_some,
    List.length_replicate, hlength, List.map_replicate, groupsOnto_sextets]
  rw [if_pos]
  · rw [show ((sextets content).length + fillers content) / 4 * 3 - fillers content =
      content.length by omega]
    simp
  · simp [hle, hchars]

/-! ### Lines -/

def columns : Nat := 64

def linesWithin : Nat → Octets → List Octets
  | 0, _ => []
  | n + 1, text =>
    if text.isEmpty then [] else text.take columns :: linesWithin n (text.drop columns)

/-- Text in lines, all of them full but the last. -/
def lines (text : Octets) : List Octets := linesWithin text.length text

def markLine (mark label : Octets) : Octets := mark ++ label ++ dashes

def joinedLines (texts : List Octets) : Octets := texts.flatMap fun line => line ++ [newline]

def write (label content : Octets) : Octets :=
  joinedLines ([markLine beginMark label] ++ lines (encoded content) ++ [markLine endMark label])

theorem write_ne_nil (label content : Octets) : write label content ≠ [] := by
  simp [write, joinedLines]

structure IsLine (line : Octets) : Prop where
  nonempty : line ≠ []
  short : line.length < maxPiece
  plain : ∀ b ∈ line, isPlain b = true

theorem flatten_linesWithin {n : Nat} {text : Octets} (h : text.length ≤ n) :
    (linesWithin n text).flatten = text := by
  induction n generalizing text with
  | zero => exact (List.length_eq_zero_iff.1 (Nat.le_zero.1 h)).symm
  | succ n ih =>
    rw [linesWithin]
    split
    · next hempty => exact (List.isEmpty_iff.1 hempty).symm
    · next hempty =>
      have hpos : 0 < text.length :=
        List.length_pos_iff.2 fun hnil => hempty (List.isEmpty_iff.2 hnil)
      have hdrop : (text.drop columns).length ≤ n := by
        rw [List.length_drop, columns]
        omega
      rw [List.flatten_cons, ih hdrop, List.take_append_drop]

theorem flatten_lines (text : Octets) : (lines text).flatten = text := flatten_linesWithin le_rfl

theorem isLine_of_mem_linesWithin {n : Nat} {text line : Octets}
    (htext : ∀ b ∈ text, isPlain b = true) (h : line ∈ linesWithin n text) : IsLine line := by
  induction n generalizing text with
  | zero => cases h
  | succ n ih =>
    rw [linesWithin] at h
    split at h
    · cases h
    · next hempty =>
      rcases List.mem_cons.1 h with rfl | h
      · refine ⟨fun hnil => ?_, ?_, fun b hb => htext b (List.mem_of_mem_take hb)⟩
        · rcases List.take_eq_nil_iff.1 hnil with hzero | hnil
          · cases hzero
          · exact hempty (List.isEmpty_iff.2 hnil)
        · exact Nat.lt_of_le_of_lt (List.length_take_le _ _) (by decide)
      · exact ih (fun b hb => htext b (List.mem_of_mem_drop hb)) h

theorem isLine_of_mem_lines {content line : Octets} (h : line ∈ lines (encoded content)) :
    IsLine line :=
  isLine_of_mem_linesWithin (fun _ => isPlain_of_mem_encoded) h

theorem isVisible_of_isPlain {b : UInt8} (h : isPlain b = true) : isVisible b = true := by
  simp only [isPlain, Bool.and_eq_true] at h
  exact h.1.1

theorem not_isBlank_of_isPlain {b : UInt8} (h : isPlain b = true) : (!isBlank b) = true := by
  have hvisible := isVisible_of_isPlain h
  rw [Bool.not_eq_true', Bool.eq_false_iff]
  intro hblank
  simp only [isBlank, Bool.or_eq_true, beq_iff_eq] at hblank
  rcases hblank with ((rfl | rfl) | rfl) | rfl <;> cases hvisible

theorem pieceWithin_line {n : Nat} {line : Octets} (h : line.length < n) (hline : newline ∉ line)
    (rest : Octets) : pieceWithin n (line ++ newline :: rest) = (line ++ [newline], rest) := by
  induction line generalizing n with
  | nil =>
    obtain ⟨n, rfl⟩ := Nat.exists_eq_add_one_of_ne_zero (Nat.ne_of_gt h)
    rfl
  | cons b line ih =>
    obtain ⟨n, rfl⟩ := Nat.exists_eq_add_one_of_ne_zero (Nat.ne_of_gt (Nat.zero_lt_of_lt h))
    obtain ⟨hb, hline⟩ := List.ne_and_not_mem_of_not_mem_cons hline
    have hne : (b == newline) = false := beq_eq_false_iff_ne.2 (Ne.symm hb)
    rw [List.cons_append, pieceWithin, hne, ih (Nat.lt_of_succ_lt_succ h) hline]
    rfl

theorem stripped_line {line : Octets} (h : ∀ hne : line ≠ [], isVisible (line.getLast hne) = true) :
    stripped (line ++ [newline]) = line := by
  change (line ++ [newline]).rdropWhile (fun b => !isVisible b) = line
  rw [List.rdropWhile_concat_pos _ _ _ rfl, List.rdropWhile_eq_self_iff]
  intro hne
  rw [h hne]
  exact Bool.false_ne_true

namespace IsLine

variable {line : Octets} (h : IsLine line)
include h

theorem isPlain_ne {b : UInt8} (hb : isPlain b = false) : b ∉ line := by
  intro hmem
  rw [h.plain b hmem] at hb
  cases hb

theorem piece_eq (rest : Octets) : piece (line ++ newline :: rest) = (line ++ [newline], rest) :=
  pieceWithin_line h.short (h.isPlain_ne rfl) rest

theorem stripped_eq : stripped (line ++ [newline]) = line :=
  stripped_line fun hne => isVisible_of_isPlain (h.plain _ (List.getLast_mem hne))

theorem endMark_isPrefixOf_eq : endMark.isPrefixOf line = false := by
  obtain ⟨b, bs, rfl⟩ := List.exists_cons_of_ne_nil h.nonempty
  have hb : b ≠ 0x2D := by
    rintro rfl
    exact h.isPlain_ne (b := 0x2D) rfl List.mem_cons_self
  rw [Bool.eq_false_iff]
  intro hbegins
  obtain ⟨rest, hrest⟩ := List.isPrefixOf_iff_prefix.1 hbegins
  cases hrest
  exact hb rfl

theorem added_eq : Body.added line = line ++ [newline] := by
  have hzero : ∀ b ∈ line ++ [newline], (b != 0) = true := by
    intro b hb
    rcases List.mem_append.1 hb with hb | hb
    · refine bne_iff_ne.2 ?_
      rintro rfl
      exact h.isPlain_ne (b := 0) rfl hb
    · rw [List.mem_singleton.1 hb]
      rfl
  exact List.takeWhile_eq_self_iff.2 hzero

end IsLine

theorem joinedLines_cons (line : Octets) (texts : List Octets) (rest : Octets) :
    joinedLines (line :: texts) ++ rest = line ++ newline :: (joinedLines texts ++ rest) := by
  simp [joinedLines]

/-- A line of a block that is open, above which there are only lines. -/
theorem readBody_line {line : Octets} (h : IsLine line) (label : Octets) (fuel : Nat)
    (found : List Octets) (rest : Octets) :
    readBody label (fuel + 1) { above := found } (line ++ newline :: rest) =
      readBody label fuel { above := (line ++ [newline]) :: found } rest := by
  have hcolon : (line ++ [newline]).contains 0x3A = false := by
    rw [Bool.eq_false_iff]
    intro hmem
    rcases List.mem_append.1 (List.contains_iff_mem.1 hmem) with hmem | hmem
    · exact h.isPlain_ne rfl hmem
    · cases List.mem_singleton.1 hmem
  have hempty : line.isEmpty = false :=
    Bool.eq_false_iff.2 fun hempty => h.nonempty (List.isEmpty_iff.1 hempty)
  have hnonempty : (line ++ [newline]).isEmpty = false := by
    cases line <;> rfl
  rw [readBody]
  simp only [h.piece_eq, hnonempty, h.stripped_eq, hempty, h.endMark_isPrefixOf_eq,
    Bool.false_eq_true, if_false, Body.noted, hcolon, and_false, Body.addLine, h.added_eq,
    List.getLast?_concat, bne_self_eq_false, Bool.and_false, Option.bind_some]

theorem readBody_lines {texts : List Octets} (h : ∀ line ∈ texts, IsLine line) (label : Octets)
    (fuel : Nat) (found : List Octets) (rest : Octets) :
    readBody label (texts.length + fuel) { above := found } (joinedLines texts ++ rest) =
      readBody label fuel { above := (texts.map (· ++ [newline])).reverse ++ found } rest := by
  induction texts generalizing found with
  | nil => rw [List.length_nil, Nat.zero_add]; rfl
  | cons line texts ih =>
    obtain ⟨hline, htexts⟩ := List.forall_mem_cons.1 h
    have hfuel : (line :: texts).length + fuel = texts.length + fuel + 1 := by
      rw [List.length_cons]
      omega
    rw [joinedLines_cons, hfuel, readBody_line hline, ih htexts]
    simp

/-- Lines are decoded as the text that they are made from. -/
theorem decode?_joinedLines {texts : List Octets} {content : Octets}
    (h : ∀ line ∈ texts, IsLine line) (hflatten : texts.flatten = encoded content) :
    decode? (joinedLines texts) = some content := by
  have hhyphen : ∀ b ∈ joinedLines texts, (b != 0x2D) = true := by
    intro b hb
    obtain ⟨line, hline, hb⟩ := List.mem_flatMap.1 hb
    refine bne_iff_ne.2 ?_
    rintro rfl
    rcases List.mem_append.1 hb with hb | hb
    · exact (h line hline).isPlain_ne rfl hb
    · cases List.mem_singleton.1 hb
  have hfilter : ∀ line ∈ texts, (line ++ [newline]).filter (fun b => !isBlank b) = line := by
    intro line hline
    rw [List.filter_append, List.filter_eq_self.2 fun b hb =>
      not_isBlank_of_isPlain ((h line hline).plain b hb)]
    exact List.append_nil line
  refine decode?_eq_some ?_
  rw [List.takeWhile_eq_self_iff.2 hhyphen, ← hflatten, joinedLines, List.filter_flatMap,
    List.flatMap_congr hfilter, List.flatMap_id']

/-! ### Blocks -/

theorem stripped_markLine (mark label : Octets) :
    stripped (markLine mark label ++ [newline]) = markLine mark label := by
  have hdashes : dashes = [0x2D, 0x2D, 0x2D, 0x2D] ++ [0x2D] := by decide
  refine stripped_line fun hne => ?_
  have hlast : (markLine mark label).getLast hne = 0x2D := by
    simp [markLine, hdashes]
  rw [hlast]
  rfl

theorem isPrefixOf_markLine (mark label : Octets) :
    mark.isPrefixOf (markLine mark label) = true := by
  rw [markLine, List.append_assoc, List.isPrefixOf_iff_prefix]
  exact List.prefix_append _ _

structure IsLabel (label : Octets) : Prop where
  short : label.length ≤ 200
  plain : ∀ b ∈ label, b = 0x20 ∨ isPlain b = true

namespace IsLabel

variable {label : Octets} (h : IsLabel label)
include h

theorem not_mem {b : UInt8} (hb : isPlain b = false) (hblank : b ≠ 0x20) : b ∉ label := by
  intro hmem
  rcases h.plain b hmem with rfl | hplain
  · exact hblank rfl
  · rw [hplain] at hb
    cases hb

variable {mark : Octets} (hmark : mark = beginMark ∨ mark = endMark)
include hmark

theorem newline_not_mem_markLine : newline ∉ markLine mark label := by
  have hnewline : newline ∉ label := h.not_mem rfl (by decide)
  have hmarks : newline ∉ beginMark ∧ newline ∉ endMark ∧ newline ∉ dashes := by decide
  unfold markLine
  rcases hmark with rfl | rfl <;> simp [hnewline, hmarks]

theorem piece_markLine (rest : Octets) :
    piece (markLine mark label ++ newline :: rest) = (markLine mark label ++ [newline], rest) := by
  have hshort := h.short
  have hlength : beginMark.length = 11 ∧ endMark.length = 9 ∧ dashes.length = 5 := by decide
  refine pieceWithin_line ?_ (h.newline_not_mem_markLine hmark) rest
  unfold markLine maxPiece
  rcases hmark with rfl | rfl <;> simp only [List.length_append] <;> omega

end IsLabel

variable {label : Octets} (h : IsLabel label)
include h

theorem label?_markLine : label? (markLine beginMark label ++ [newline]) = some label := by
  have hzero : ∀ b ∈ label, (b != 0) = true :=
    fun b hb => bne_iff_ne.2 fun hb' => h.not_mem rfl (by decide) (hb' ▸ hb)
  have hbegins : beginMark.isPrefixOf (markLine beginMark label) = true :=
    isPrefixOf_markLine beginMark label
  have hends : dashes.isSuffixOf (markLine beginMark label) = true :=
    List.isSuffixOf_iff_suffix.2 (List.suffix_append _ _)
  have hlength : (markLine beginMark label).length - beginMark.length - dashes.length =
    label.length := by
    simp only [markLine, List.length_append]
    omega
  unfold label?
  rw [stripped_markLine]
  simp only [hbegins, hends, Bool.and_self, if_true, hlength]
  rw [markLine, List.append_assoc, List.drop_left, List.take_left, untilZero,
    List.takeWhile_eq_self_iff.2 hzero]

theorem findLabel_markLine (fuel : Nat) (rest : Octets) :
    findLabel true (fuel + 1) (markLine beginMark label ++ newline :: rest) =
      some (label, rest) := by
  have hmark : beginMark = 0x2D :: beginMark.tail := by decide
  have hnonempty : (markLine beginMark label ++ [newline]).isEmpty = false := by
    rw [markLine, hmark]
    rfl
  have horder : withoutByteOrderMark (markLine beginMark label ++ [newline]) =
    markLine beginMark label ++ [newline] := by
    rw [markLine, hmark]
    rfl
  rw [findLabel]
  simp only [h.piece_markLine (.inl rfl), hnonempty, Bool.false_eq_true, if_false, if_true, horder,
    label?_markLine h]

/-- The line that ends a block. -/
theorem readBody_markLine (fuel : Nat) (found : List Octets) (rest : Octets) :
    readBody label (fuel + 1) { above := found } (markLine endMark label ++ newline :: rest) =
      some (([], Body.joined found), rest) := by
  have hcolon : (markLine endMark label ++ [newline]).contains 0x3A = false := by
    have hlabel : 0x3A ∉ label := h.not_mem rfl (by decide)
    have hmarks : 0x3A ∉ endMark ∧ 0x3A ∉ dashes := by decide
    simp [markLine, hlabel, hmarks, newline]
  have hmark : endMark = 0x2D :: endMark.tail := by decide
  have hempty : (markLine endMark label).isEmpty = false := by
    rw [markLine, hmark]
    rfl
  have hnonempty : (markLine endMark label ++ [newline]).isEmpty = false := by
    rw [markLine, hmark]
    rfl
  have hbegins := isPrefixOf_markLine endMark label
  have hline : (markLine endMark label = endMark ++ label ++ dashes) = True := eq_true rfl
  rw [readBody]
  simp only [h.piece_markLine (.inr rfl), stripped_markLine, hnonempty, hempty, hbegins, hline,
    Bool.false_eq_true, if_false, if_true, Body.noted, Body.parts, hcolon, and_false]

/-- What has been written is the next block. -/
theorem next_write (content rest : Octets) :
    next (write label content ++ rest) = .block ⟨label, [], content⟩ rest := by
  let texts := lines (encoded content)
  let inside := joinedLines texts ++ (markLine endMark label ++ newline :: rest)
  have hwrite : write label content ++ rest = markLine beginMark label ++ newline :: inside := by
    simp [write, joinedLines, inside, texts]
  have hfuel : ∃ fuel, inside.length + 1 = texts.length + (fuel + 1) := by
    have hle : texts.length ≤ (joinedLines texts).length :=
      length_le_length_flatMap fun line _ => by simp
    refine ⟨inside.length - texts.length, ?_⟩
    simp only [inside, List.length_append] at hle ⊢
    omega
  obtain ⟨fuel, hfuel⟩ := hfuel
  have hbody : readBody label (inside.length + 1) {} inside =
      some (([], Body.joined ((texts.map (· ++ [newline])).reverse ++ [])), rest) := by
    rw [hfuel]
    exact (readBody_lines (fun _ => isLine_of_mem_lines) label (fuel + 1) [] _).trans
      (readBody_markLine h _ _ _)
  have hjoined : Body.joined ((texts.map (· ++ [newline])).reverse ++ []) = joinedLines texts := by
    simp [Body.joined, joinedLines, List.flatMap]
  have hdecode : decode? (joinedLines texts) = some content :=
    decode?_joinedLines (fun _ => isLine_of_mem_lines) (flatten_lines _)
  rw [hjoined] at hbody
  unfold next
  rw [hwrite]
  simp only [findLabel_markLine h, hbody, hdecode]

/-- Of a row of blocks all contents are read, in order. -/
theorem allWithin_flatMap_write {isWanted : Octets → Bool} (hwanted : isWanted label = true)
    {contents : List Octets} {fuel : Nat} (hfuel : contents.length < fuel) (found : List Octets) :
    allWithin isWanted fuel found (contents.flatMap (write label)) =
      some (found.reverse ++ contents) := by
  induction contents generalizing fuel found with
  | nil =>
    obtain ⟨fuel, rfl⟩ := Nat.exists_eq_add_one_of_ne_zero (Nat.ne_of_gt hfuel)
    rw [List.append_nil]
    rfl
  | cons content contents ih =>
    obtain ⟨fuel, rfl⟩ := Nat.exists_eq_add_one_of_ne_zero (Nat.ne_of_gt (Nat.zero_lt_of_lt hfuel))
    rw [List.flatMap_cons, allWithin]
    simp only [next_write h, hwanted, if_true, List.isEmpty_nil]
    rw [ih (Nat.lt_of_succ_lt_succ hfuel), List.reverse_cons, List.append_assoc]
    rfl

theorem all_flatMap_write {isWanted : Octets → Bool} (hwanted : isWanted label = true)
    (contents : List Octets) : all isWanted (contents.flatMap (write label)) = some contents :=
  allWithin_flatMap_write h hwanted
    (Nat.lt_succ_of_le (length_le_length_flatMap fun _ _ => write_ne_nil _ _)) []

theorem first?_write {isWanted : Octets → Bool} (hwanted : isWanted label = true)
    (content rest : Octets) : first? isWanted (write label content ++ rest) = some content := by
  unfold first? firstWithin
  simp only [next_write h, hwanted, if_true, List.isEmpty_nil]

end Pem

end AttestedKey
