import Stencil.Proofs.Places
import Stencil.Proofs.Spans
/-
  Places found in bytes. A text is kept as its bytes and the bytes at which its lines start. The
  line of an offset is found by halving, and its column by counting the characters in the bytes from
  the start of the line on. That is the place which the table of lines gives, for every offset
  (`LineStarts.place_ofBytes`), and between characters it is the true place (`place_true`).
-/

namespace Stencil

open Text

/-! ## Halving -/

/-- The first number between two at which `below` does not hold, if it holds up to some number and
    not from there on. -/
def partitionPoint (below : Nat → Bool) (low high : Nat) : Nat :=
  if low < high then
    let middle := (low + high) / 2
    if below middle then partitionPoint below (middle + 1) high
    else partitionPoint below low middle
  else low
termination_by high - low

theorem partitionPoint_eq {below : Nat → Bool} {low high point : Nat} (hlow : low ≤ point)
    (hhigh : point ≤ high) (h : ∀ i < high, below i = true ↔ i < point) :
    partitionPoint below low high = point := by
  fun_induction partitionPoint below low high with
  | case1 low high hlt middle hbelow ih =>
    have hmiddle : middle < high := by omega
    exact ih ((h middle hmiddle).1 hbelow) hhigh h
  | case2 low high hlt middle hbelow ih =>
    have hmiddle : middle < high := by omega
    have hpoint : point ≤ middle := Nat.le_of_not_lt fun hp => hbelow ((h middle hmiddle).2 hp)
    exact ih hlow hpoint fun i hi => h i (Nat.lt_trans hi hmiddle)
  | case3 low high hlt => omega

/-- Of numbers that are cut at a bound, the search finds how many stand before the cut. -/
theorem partitionPoint_append {xs ys : List Nat} {bound : Nat} (hxs : ∀ x ∈ xs, x ≤ bound)
    (hys : ∀ y ∈ ys, bound < y) :
    partitionPoint (fun i => (xs ++ ys)[i]?.any (· ≤ bound)) 0 (xs ++ ys).length = xs.length := by
  refine partitionPoint_eq (Nat.zero_le _) (by simp) fun i hi => ?_
  rw [List.getElem?_eq_getElem hi, Option.any_some, decide_eq_true_iff]
  constructor
  · intro hle
    refine Nat.lt_of_not_le fun hright => ?_
    rw [List.getElem_append_right hright] at hle
    exact Nat.not_lt_of_le hle (hys _ (List.getElem_mem _))
  · intro hleft
    rw [List.getElem_append_left hleft]
    exact hxs _ (List.getElem_mem _)

/-! ## Bytes between characters -/

/-- Whether no character is cut at a byte: it is the end, or the first byte of a character is
    there. -/
def isBoundary (bs : List UInt8) (i : Nat) : Bool :=
  match bs[i]? with
  | some b => b.IsUTF8FirstByte
  | none => i = bs.length

/-- How many characters some bytes hold; none if a character is cut at either end. -/
def charsBetween? (bs : List UInt8) (start stop : Nat) : Option Nat :=
  if start ≤ stop ∧ isBoundary bs start ∧ isBoundary bs stop then
    some ((TagScanner.slice bs (start, stop)).countP fun b => b.IsUTF8FirstByte)
  else none

/-- The first byte of a character is one, and no other byte of it is. -/
theorem exists_encode (c : Char) : ∃ b bs, String.utf8EncodeChar c = b :: bs ∧
    b.IsUTF8FirstByte ∧ ∀ x ∈ bs, ¬x.IsUTF8FirstByte := by
  have hfirst : ∀ i (hi : i < (String.utf8EncodeChar c).length),
      (String.utf8EncodeChar c)[i].IsUTF8FirstByte ↔ i = 0 :=
    fun i hi => UInt8.isUTF8FirstByte_getElem_utf8EncodeChar
  cases hc : String.utf8EncodeChar c with
  | nil =>
    have hlength := String.length_utf8EncodeChar c
    rw [hc] at hlength
    exact absurd hlength (Nat.ne_of_lt c.utf8Size_pos)
  | cons b bs =>
    simp only [hc] at hfirst
    refine ⟨b, bs, rfl, (hfirst 0 (by simp)).2 rfl, fun x hx hx' => ?_⟩
    obtain ⟨i, hi, rfl⟩ := List.getElem_of_mem hx
    exact absurd ((hfirst (i + 1) (by simpa using hi)).1 hx') (Nat.succ_ne_zero i)

theorem countP_bytes (cs : List Char) :
    (bytes cs).countP (fun b => b.IsUTF8FirstByte) = cs.length := by
  induction cs with
  | nil => rfl
  | cons c cs ih =>
    obtain ⟨b, bs, hc, hb, hbs⟩ := exists_encode c
    have hrest : bs.countP (fun b => b.IsUTF8FirstByte) = 0 :=
      List.countP_eq_zero.2 fun x hx => by simpa using hbs x hx
    rw [bytes_cons, hc, List.countP_append, List.countP_cons, hrest, ih, List.length_cons]
    simp [hb, Nat.add_comm]

theorem isBoundary_append (cs ds : List Char) :
    isBoundary (bytes (cs ++ ds)) (byteSize cs) = true := by
  rw [isBoundary, bytes_append, List.getElem?_append_right (by simp), length_bytes, Nat.sub_self]
  cases ds with
  | nil => simp
  | cons d ds =>
    obtain ⟨b, bs, hd, hb, -⟩ := exists_encode d
    rw [bytes_cons, hd]
    simpa using hb

/-- Inside a character there is no boundary. -/
theorem isBoundary_inside (cs : List Char) (c : Char) (ds : List Char) {n : Nat} (hpos : 0 < n)
    (hlt : n < c.utf8Size) : isBoundary (bytes (cs ++ c :: ds)) (byteSize cs + n) = false := by
  obtain ⟨b, bs, hc, -, hbs⟩ := exists_encode c
  obtain ⟨k, rfl⟩ := Nat.exists_eq_succ_of_ne_zero (Nat.ne_of_gt hpos)
  have hk : k < bs.length := by
    have hlength := String.length_utf8EncodeChar c
    rw [hc, List.length_cons] at hlength
    omega
  have hbyte : (bytes (cs ++ c :: ds))[byteSize cs + (k + 1)]? = some bs[k] := by
    rw [bytes_append, List.getElem?_append_right (by simp), length_bytes, Nat.add_sub_cancel_left,
      bytes_cons, hc, List.cons_append, List.getElem?_cons_succ, List.getElem?_append_left hk,
      List.getElem?_eq_getElem hk]
  rw [isBoundary, hbyte]
  simpa using hbs _ (List.getElem_mem hk)

/-- A byte in a text is either between two characters or inside one. -/
theorem exists_cut (cs : List Char) {n : Nat} (h : n ≤ byteSize cs) :
    (∃ before after, cs = before ++ after ∧ byteSize before = n) ∨
      ∃ before c after k, cs = before ++ c :: after ∧ 0 < k ∧ k < c.utf8Size ∧
        byteSize before + k = n := by
  induction cs generalizing n with
  | nil => exact .inl ⟨[], [], rfl, (Nat.le_zero.1 h).symm⟩
  | cons c cs ih =>
    rw [byteSize_cons] at h
    by_cases hn : n < c.utf8Size
    · rcases Nat.eq_zero_or_pos n with rfl | hpos
      · exact .inl ⟨[], c :: cs, rfl, rfl⟩
      · exact .inr ⟨[], c, cs, n, rfl, hpos, hn, Nat.zero_add n⟩
    · have hle : n - c.utf8Size ≤ byteSize cs := by omega
      rcases ih hle with ⟨before, after, rfl, hsize⟩ | ⟨before, d, after, k, rfl, hpos, hlt, hsize⟩
      · refine .inl ⟨c :: before, after, rfl, ?_⟩
        rw [byteSize_cons]
        omega
      · refine .inr ⟨c :: before, d, after, k, rfl, hpos, hlt, ?_⟩
        rw [byteSize_cons]
        omega

/-- A byte is a boundary if the text can be cut there. -/
theorem isBoundary_iff {cs : List Char} {n : Nat} : isBoundary (bytes cs) n = true ↔
    ∃ before after, cs = before ++ after ∧ byteSize before = n := by
  constructor
  · intro h
    have hle : n ≤ byteSize cs := by
      rw [← length_bytes]
      refine Nat.le_of_not_lt fun hlt => ?_
      rw [isBoundary, List.getElem?_eq_none (Nat.le_of_lt hlt), decide_eq_true_iff] at h
      exact Nat.ne_of_gt hlt h
    rcases exists_cut cs hle with hcut | ⟨before, c, after, k, rfl, hpos, hlt, rfl⟩
    · exact hcut
    · rw [isBoundary_inside before c after hpos hlt] at h
      exact absurd h Bool.false_ne_true
  · rintro ⟨before, after, rfl, rfl⟩
    exact isBoundary_append before after

namespace LineTable

theorem charsIn?_inside (cs : List Char) (c : Char) (ds : List Char) {n : Nat} (hpos : 0 < n)
    (hlt : n < c.utf8Size) : charsIn? (cs ++ c :: ds) (byteSize cs + n) = none := by
  induction cs with
  | nil =>
    rw [List.nil_append, byteSize_nil, Nat.zero_add, charsIn?, if_neg (Nat.not_le_of_lt hlt)]
    exact Nat.ne_of_gt hpos
  | cons b cs ih =>
    have hb := b.utf8Size_pos
    rw [List.cons_append, byteSize_cons, Nat.add_assoc, charsIn?, if_pos (by omega),
      Nat.add_sub_cancel_left, ih, Option.map_none]
    omega

/-- Counting in the bytes of a text is counting in the characters of the line. -/
theorem charsBetween?_bytes (before chars after : List Char) {n : Nat} (h : n ≤ byteSize chars) :
    charsBetween? (bytes (before ++ (chars ++ after))) (byteSize before) (byteSize before + n) =
      charsIn? chars n := by
  have hstart := isBoundary_append before (chars ++ after)
  rcases exists_cut chars h with ⟨cs, ds, rfl, rfl⟩ | ⟨cs, c, ds, k, rfl, hpos, hlt, rfl⟩
  · have hstop := isBoundary_append (before ++ cs) (ds ++ after)
    have hslice := TagScanner.slice_bytes before cs (ds ++ after)
    simp only [List.append_assoc, byteSize_append] at hstart hstop hslice ⊢
    rw [charsBetween?, if_pos ⟨Nat.le_add_right _ _, hstart, hstop⟩, hslice, countP_bytes,
      charsIn?_append]
  · have hstop := isBoundary_inside (before ++ cs) c (ds ++ after) hpos hlt
    simp only [List.append_assoc, byteSize_append, List.cons_append, Nat.add_assoc] at hstop ⊢
    rw [charsIn?_inside cs c ds hpos hlt, charsBetween?, if_neg]
    exact fun hboth => Bool.false_ne_true (hstop.symm.trans hboth.2.2)

/-! ## The line of an offset -/

/-- The lines around an offset: `line` is the last one that starts at or before it. -/
structure Around (start : Nat) (cs : List Char) (offset : Nat) (earlier : List Line) (line : Line)
    (later : List Line) : Prop where
  lines : linesFrom start cs = earlier ++ line :: later
  earlier_le : ∀ l ∈ earlier, l.start ≤ offset
  start_le : line.start ≤ offset
  lt_later : ∀ l ∈ later, offset < l.start
  le_stop : offset ≤ line.start + byteSize line.chars
  segment : ∃ before after, cs = before ++ (line.chars ++ after) ∧
    line.start = start + byteSize before

theorem start_le_of_mem (start : Nat) (cs : List Char) :
    ∀ l ∈ linesFrom start cs, start ≤ l.start := by
  by_cases hcs : '\n' ∈ cs
  · obtain ⟨line, rest, rfl, hline⟩ := List.eq_append_cons_of_mem hcs
    rw [linesFrom_newline hline]
    intro l hl
    rcases List.mem_cons.1 hl with rfl | hl
    · exact Nat.le_refl _
    · exact Nat.le_trans (Nat.le_add_right _ _) (start_le_of_mem _ rest l hl)
  · simp [linesFrom_of_not_mem hcs]
termination_by cs.length

theorem exists_around (start : Nat) (cs : List Char) {offset : Nat} (hstart : start ≤ offset)
    (hstop : offset ≤ start + byteSize cs) : ∃ earlier line later,
      Around start cs offset earlier line later := by
  by_cases hcs : '\n' ∈ cs
  · obtain ⟨line, rest, rfl, hline⟩ := List.eq_append_cons_of_mem hcs
    have hlines := linesFrom_newline hline start rest
    have hsize : byteSize (line ++ '\n' :: rest) = byteSize (line ++ ['\n']) + byteSize rest := by
      simp only [byteSize_append, byteSize_cons, byteSize_nil]
      omega
    by_cases hnext : start + byteSize (line ++ ['\n']) ≤ offset
    · obtain ⟨earlier, l, later, haround⟩ := exists_around _ rest hnext (by omega)
      obtain ⟨before, after, hrest, hbefore⟩ := haround.segment
      refine ⟨⟨start, line ++ ['\n']⟩ :: earlier, l, later, ?_, ?_, haround.start_le,
        haround.lt_later, haround.le_stop, line ++ '\n' :: before, after, ?_, ?_⟩
      · rw [hlines, haround.lines, List.cons_append]
      · intro k hk
        rcases List.mem_cons.1 hk with rfl | hk
        · exact hstart
        · exact haround.earlier_le k hk
      · rw [List.append_assoc, List.cons_append, ← hrest]
      · rw [hbefore]
        simp only [byteSize_append, byteSize_cons, byteSize_nil]
        omega
    · refine ⟨[], ⟨start, line ++ ['\n']⟩, _, hlines, by simp, hstart, ?_, ?_, [], rest, ?_, rfl⟩
      · intro l hl
        exact Nat.lt_of_lt_of_le (Nat.lt_of_not_le hnext) (start_le_of_mem _ rest l hl)
      · exact Nat.le_of_not_le hnext
      · simp
  · refine ⟨[], ⟨start, cs⟩, [], linesFrom_of_not_mem hcs start, by simp, hstart, by simp, hstop,
      [], [], by simp, rfl⟩
termination_by cs.length

theorem place_of_around {cs : List Char} {offset n : Nat} {earlier later : List Line} {line : Line}
    (hn : min offset (byteSize cs) = n) (h : Around 0 cs n earlier line later) :
    (ofChars cs).place offset =
      ⟨earlier.length + 1, (charsIn? line.chars (n - line.start)).getD (n - line.start) + 1⟩ := by
  have hlater : later.takeWhile (·.start ≤ n) = [] := by
    cases later with
    | nil => rfl
    | cons l later =>
      have hlt := h.lt_later l (List.mem_cons_self ..)
      exact List.takeWhile_cons_of_neg (by simpa using hlt)
  have hreached : (linesFrom 0 cs).takeWhile (·.start ≤ n) = earlier ++ [line] := by
    rw [h.lines, List.takeWhile_append_of_pos (fun l hl => by simpa using h.earlier_le l hl),
      List.takeWhile_cons_of_pos (by simpa using h.start_le), hlater]
  simp only [place, ofChars, hn, hreached, List.getLast?_concat, List.length_append,
    List.length_singleton]

end LineTable

/-! ## The table of starts -/

/-- The positions behind newlines, in bytes that begin at a position. -/
def behindNewlines (position : Nat) : List UInt8 → List Nat
  | [] => []
  | b :: bs =>
    if b = '\n'.toUInt8 then (position + 1) :: behindNewlines (position + 1) bs
    else behindNewlines (position + 1) bs

theorem behindNewlines_append (position : Nat) {front : List UInt8}
    (h : '\n'.toUInt8 ∉ front) (bs : List UInt8) :
    behindNewlines position (front ++ bs) = behindNewlines (position + front.length) bs := by
  induction front generalizing position with
  | nil => rfl
  | cons b front ih =>
    rw [List.mem_cons, not_or] at h
    rw [List.cons_append, behindNewlines, if_neg (Ne.symm h.1), ih _ h.2, List.length_cons,
      Nat.add_right_comm]
    rfl

theorem newline_not_mem_bytes {cs : List Char} (h : '\n' ∉ cs) : '\n'.toUInt8 ∉ bytes cs := by
  intro hmem
  obtain ⟨xs, ys, hbytes⟩ := List.append_of_mem hmem
  obtain ⟨before, after, rfl, -, -⟩ := cut_at_ascii (by decide) hbytes
  simp at h

theorem start_linesFrom (start : Nat) (cs : List Char) :
    (LineTable.linesFrom start cs).map (·.start) = start :: behindNewlines start (bytes cs) := by
  by_cases hcs : '\n' ∈ cs
  · obtain ⟨line, rest, rfl, hline⟩ := List.eq_append_cons_of_mem hcs
    have hsize : start + byteSize (line ++ ['\n']) = start + byteSize line + 1 := by
      simp only [byteSize_append, byteSize_cons, byteSize_nil]
      rfl
    rw [LineTable.linesFrom_newline hline, List.map_cons, start_linesFrom _ rest, bytes_append,
      behindNewlines_append start (newline_not_mem_bytes hline), length_bytes, bytes_cons,
      encode_ascii (by decide), List.singleton_append, behindNewlines, if_pos rfl, hsize]
  · have hnone := behindNewlines_append start (newline_not_mem_bytes hcs) []
    rw [List.append_nil] at hnone
    rw [LineTable.linesFrom_of_not_mem hcs, hnone]
    rfl
termination_by cs.length

/-- A text as its bytes, and the bytes at which its lines start. -/
structure LineStarts where
  bytes : List UInt8
  starts : List Nat

namespace LineStarts

def ofBytes (bs : List UInt8) : LineStarts := ⟨bs, 0 :: behindNewlines 0 bs⟩

def lineCount (table : LineStarts) : Nat := table.starts.length

/-- The place of a byte offset; the number of the line is found by halving. Offsets past the end
    count as the end; inside a character the column counts bytes. -/
def place (table : LineStarts) (offset : Nat) : Place :=
  let offset := min offset table.bytes.length
  let line :=
    partitionPoint (fun i => table.starts[i]?.any (· ≤ offset)) 0 table.starts.length - 1
  let start := table.starts.getD line 0
  ⟨line + 1, (charsBetween? table.bytes start offset).getD (offset - start) + 1⟩

theorem starts_ofBytes (cs : List Char) :
    (ofBytes (Text.bytes cs)).starts = (LineTable.ofChars cs).lines.map (·.start) :=
  (start_linesFrom 0 cs).symm

theorem lineCount_ofBytes (cs : List Char) :
    (ofBytes (Text.bytes cs)).lineCount = (LineTable.ofChars cs).lineCount := by
  rw [lineCount, starts_ofBytes, List.length_map]
  rfl

section

variable {cs : List Char} {n : Nat} {earlier later : List Line} {line : Line}

theorem starts_of_around (h : LineTable.Around 0 cs n earlier line later) :
    (ofBytes (Text.bytes cs)).starts =
      (earlier.map (·.start) ++ [line.start]) ++ later.map (·.start) := by
  rw [starts_ofBytes, LineTable.ofChars, h.lines]
  simp

/-- The search stops behind the lines that start at or before the offset. -/
theorem partitionPoint_of_around (h : LineTable.Around 0 cs n earlier line later) :
    partitionPoint (fun i => (ofBytes (Text.bytes cs)).starts[i]?.any (· ≤ n)) 0
      (ofBytes (Text.bytes cs)).starts.length = earlier.length + 1 := by
  have hreached : ∀ x ∈ earlier.map (·.start) ++ [line.start], x ≤ n := by
    intro x hx
    rcases List.mem_append.1 hx with hx | hx
    · obtain ⟨l, hl, rfl⟩ := List.mem_map.1 hx
      exact h.earlier_le l hl
    · rw [List.mem_singleton.1 hx]
      exact h.start_le
  have hlater : ∀ y ∈ later.map (·.start), n < y := by
    intro y hy
    obtain ⟨l, hl, rfl⟩ := List.mem_map.1 hy
    exact h.lt_later l hl
  have hpoint := partitionPoint_append hreached hlater
  rwa [← starts_of_around h, List.length_append, List.length_map, List.length_singleton] at hpoint

theorem charsBetween?_of_around (h : LineTable.Around 0 cs n earlier line later) :
    charsBetween? (Text.bytes cs) line.start n =
      LineTable.charsIn? line.chars (n - line.start) := by
  obtain ⟨before, after, hcs, hbefore⟩ := h.segment
  have hbytes := LineTable.charsBetween?_bytes before line.chars after
    (Nat.sub_le_iff_le_add'.2 h.le_stop)
  rw [Nat.zero_add] at hbefore
  rwa [← hcs, ← hbefore, Nat.add_sub_cancel' h.start_le] at hbytes

end

/-- The place found in the bytes is the one that the table of lines gives, for every offset. -/
theorem place_ofBytes (cs : List Char) (offset : Nat) :
    (ofBytes (Text.bytes cs)).place offset = (LineTable.ofChars cs).place offset := by
  obtain ⟨n, hn⟩ : ∃ n, min offset (byteSize cs) = n := ⟨_, rfl⟩
  have hle : n ≤ 0 + byteSize cs := by omega
  obtain ⟨earlier, line, later, haround⟩ := LineTable.exists_around 0 cs (Nat.zero_le n) hle
  have hn' : min offset (ofBytes (Text.bytes cs)).bytes.length = n := by
    rw [← hn]
    exact congrArg (min offset) (length_bytes cs)
  have hstart : (ofBytes (Text.bytes cs)).starts.getD earlier.length 0 = line.start := by
    rw [starts_of_around haround]
    simp
  rw [LineTable.place_of_around hn haround, ← charsBetween?_of_around haround]
  simp only [place, hn', partitionPoint_of_around haround, Nat.add_sub_cancel, hstart]
  rfl

end LineStarts

/-! ## True places -/

namespace LineTable

theorem length_linesFrom (start : Nat) (cs : List Char) :
    (linesFrom start cs).length = cs.count '\n' + 1 := by
  by_cases hcs : '\n' ∈ cs
  · obtain ⟨line, rest, rfl, hline⟩ := List.eq_append_cons_of_mem hcs
    rw [linesFrom_newline hline, List.length_cons, length_linesFrom _ rest, List.count_append,
      List.count_eq_zero.2 hline, List.count_cons_self, Nat.zero_add]
  · rw [linesFrom_of_not_mem hcs, List.count_eq_zero.2 hcs]
    rfl
termination_by cs.length

theorem place_past_end {table : LineTable} {offset : Nat} (h : table.size ≤ offset) :
    table.place offset = table.place table.size := by
  simp only [place, Nat.min_eq_right h, Nat.min_self]

/-- Of two places in a text that cut no character, the one behind more bytes is further on. -/
theorem place_lt_place {cs : List Char} {m n : Nat} (hm : isBoundary (bytes cs) m = true)
    (hn : isBoundary (bytes cs) n = true) (h : m < n) :
    (ofChars cs).place m < (ofChars cs).place n := by
  obtain ⟨before, after, rfl, rfl⟩ := isBoundary_iff.1 hm
  obtain ⟨before', after', heq, rfl⟩ := isBoundary_iff.1 hn
  obtain ⟨between, rfl, rfl⟩ := exists_of_byteSize_le heq (Nat.le_of_lt h)
  have hne : between ≠ [] := by
    rintro rfl
    simp at h
  have hplace := place_ofChars (before ++ between) after'
  rw [List.append_assoc] at hplace
  rw [hplace, place_ofChars]
  exact Place.behind_lt_behind before hne

end LineTable

/-- A table tells true places. Wherever no character is cut, the line is one more than the newlines
    before, and the column one more than the characters since the last of them; past the end it is
    the place of the end. Between characters, more bytes are further on in reading order, so no two
    such offsets have one place. There is one more line than newlines. A table of bytes, with its
    search by halving, tells the same for every offset. -/
theorem LineTable.place_true (text : String) :
    let table := ofText text
    (∀ before after, text.toList = before ++ after →
      table.place (byteSize before) = .behind before) ∧
    (∀ offset, byteSize text.toList ≤ offset → table.place offset = .behind text.toList) ∧
    (∀ m n, isBoundary (utf8 text) m = true → isBoundary (utf8 text) n = true →
      (m < n → table.place m < table.place n) ∧ (table.place m = table.place n → m = n)) ∧
    table.lineCount = text.toList.count '\n' + 1 ∧
    (LineStarts.ofBytes (utf8 text)).lineCount = table.lineCount ∧
    ∀ offset, (LineStarts.ofBytes (utf8 text)).place offset = table.place offset := by
  rw [utf8_eq_bytes]
  refine ⟨fun before after h => ?_, fun offset h => ?_, fun m n hm hn => ?_,
    length_linesFrom 0 _, LineStarts.lineCount_ofBytes _, LineStarts.place_ofBytes _⟩
  · rw [ofText, h, place_ofChars]
  · have hend := place_ofChars text.toList []
    rw [List.append_nil] at hend
    exact (place_past_end h).trans hend
  · refine ⟨place_lt_place hm hn, fun heq => ?_⟩
    -- two offsets with one place are not one before the other
    rcases Nat.lt_trichotomy m n with hlt | hmn | hlt
    · exact absurd (place_lt_place hm hn hlt) (heq ▸ Place.lt_irrefl _)
    · exact hmn
    · exact absurd (place_lt_place hn hm hlt) (heq ▸ Place.lt_irrefl _)

/-- A newline behind a character of two bytes: its own place is still on the first line, and the
    place behind it is on the second. -/
theorem LineTable.place_true_newline :
    "é\nb".toList = ['é', '\n'] ++ ['b'] ∧ isBoundary (utf8 "é\nb") 2 = true ∧
      isBoundary (utf8 "é\nb") 3 = true ∧ 2 < 3 ∧
      (ofText "é\nb").place 3 = ⟨2, 1⟩ ∧ (ofText "é\nb").place 2 < (ofText "é\nb").place 3 := by
  have hlist : "é\nb".toList = ['é', '\n'] ++ ['b'] := by decide
  have h2 : isBoundary (utf8 "é\nb") 2 = true := by decide +kernel
  have h3 : isBoundary (utf8 "é\nb") 3 = true := by decide +kernel
  have htrue := LineTable.place_true "é\nb"
  exact ⟨hlist, h2, h3, by decide, htrue.1 _ _ hlist, (htrue.2.2.1 2 3 h2 h3).1 (by decide)⟩

end Stencil
