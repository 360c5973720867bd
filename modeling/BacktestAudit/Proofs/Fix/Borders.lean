import BacktestAudit.Proofs.Fix.AtOnce
import BacktestAudit.Proofs.Fix.Fitting

/-!
Where edits begin and end. Each end of an edit that a finding offers is beside a character that ends
no line, so that an edit cuts neither a character nor a pair of line breaks. The removal of an
argument may begin in the indent before it, but never before the name of the method ends.
-/
namespace BacktestAudit.Fix
open BacktestAudit.Source BacktestAudit.Syntax BacktestAudit.Flow BacktestAudit.Rules
  BacktestAudit.Text
set_option autoImplicit false

/-! ## Characters between places -/

theorem encode_of_list_append (cs ds : List Char) :
    encode (String.ofList (cs ++ ds)) = encode (String.ofList cs) ++ encode (String.ofList ds) := by
  rw [String.ofList_append, encode_append]

theorem encode_of_list_length (cs : List Char) :
    (encode (String.ofList cs)).length = sizeOfChars cs := by
  rw [encode_length, String.toList_ofList]

section Places
variable {text : String} {a b : Nat} {cs : List Char}

theorem stands_at_start (h : StandsAt text a b cs) : Boundary text a := by
  obtain ⟨before, behind, htext, hstart, _⟩ := h
  refine ⟨.ofList before, .ofList (cs ++ behind), ?_, ?_⟩
  · rw [← String.ofList_append, ← htext, String.ofList_toList]
  · rw [encode_of_list_length, hstart]

theorem stands_at_stop (h : StandsAt text a b cs) : Boundary text b := by
  obtain ⟨before, behind, htext, hstart, hstop⟩ := h
  refine ⟨.ofList (before ++ cs), .ofList behind, ?_, ?_⟩
  · rw [← String.ofList_append, List.append_assoc, ← htext, String.ofList_toList]
  · rw [encode_of_list_length, size_of_chars_append, hstart, hstop]

theorem stands_between (ha : Boundary text a) (hb : Boundary text b) (hab : a ≤ b) :
    ∃ cs, StandsAt text a b cs := by
  obtain ⟨before, middle, behind, rfl, hstart, hstop⟩ := ha.between hb (Int.ofNat_le.mpr hab)
  rw [encode_length] at hstart hstop
  rw [encode_length] at hstop
  refine ⟨middle.toList, before.toList, behind.toList, ?_, by omega, by omega⟩
  rw [String.toList_append, String.toList_append]

theorem bytes_of_stands_at (h : StandsAt text a b cs) :
    ((encode text).drop a).take (b - a) = encode (String.ofList cs) ∧
      a ≤ (encode text).length ∧ b ≤ (encode text).length := by
  obtain ⟨before, behind, htext, hstart, hstop⟩ := h
  have hencode : encode text = encode (String.ofList before) ++
      (encode (String.ofList cs) ++ encode (String.ofList behind)) := by
    rw [← encode_of_list_append, ← encode_of_list_append, ← htext, String.ofList_toList]
  have hbefore := encode_of_list_length before
  have hmiddle := encode_of_list_length cs
  rw [hencode, List.length_append, List.length_append]
  refine ⟨?_, by omega, by omega⟩
  rw [List.drop_append_of_le_length (by omega), List.drop_of_length_le (by omega),
    List.nil_append, List.take_append_of_le_length (by omega), List.take_of_length_le (by omega)]

theorem segment_of_stands_at (h : StandsAt text a b cs) :
    segment text ⟨a, b⟩ = String.ofList cs := by
  obtain ⟨hbytes, ha, hb⟩ := bytes_of_stands_at h
  rw [Source.segment, segment?, bytesOf, slice_of_le _ ha hb, hbytes, decode_encode]
  rfl

end Places

/-! ## Clear places -/

/-- A place beside a character that ends no line. -/
def Clear (text : String) (place : Nat) : Prop := Opens text place ∨ Closes text place

theorem Clear.boundary {text : String} {place : Nat} (h : Clear text place) :
    Boundary text place := by
  rcases h with ⟨c, stop, hc, _⟩ | ⟨c, start, hc, _⟩
  · exact stands_at_start hc
  · exact stands_at_stop hc

/-- What stands before a clear place and what stands behind it do not make a pair of line breaks. -/
theorem Clear.apart {text : String} {before behind : List Char}
    (h : Clear text (sizeOfChars before)) (htext : text.toList = before ++ behind) :
    (∃ c ∈ behind.head?, isBreak c = false) ∨ ∃ c ∈ before.getLast?, isBreak c = false := by
  rcases h with ⟨c, stop, ⟨before', rest, htext', hstart, _⟩, hbreak⟩ |
    ⟨c, start, ⟨before', rest, htext', hstart, hstop⟩, hbreak⟩
  · obtain ⟨_, rfl⟩ := cut_unique (htext.symm.trans htext') hstart.symm
    exact .inl ⟨c, rfl, hbreak⟩
  · have hcut : before ++ behind = (before' ++ [c]) ++ rest := by
      rw [← htext, htext', List.append_assoc]
    have hsize : sizeOfChars before = sizeOfChars (before' ++ [c]) := by
      rw [size_of_chars_append, hstart, hstop]
    obtain ⟨rfl, _⟩ := cut_unique hcut hsize
    exact .inr ⟨c, List.getLast?_concat .., hbreak⟩

/-! ## The indent before an argument -/

def isIndent (c : Char) : Bool := c = ' ' || c = '\t'

def isIndentByte (b : UInt8) : Bool := b = 32 || b = 9

theorem is_indent_byte_eq (b : UInt8) :
    isIndentByte b = (decide (b.toNat = 32) || decide (b.toNat = 9)) := by
  have hbyte : ∀ n : UInt8, decide (b = n) = decide (b.toNat = n.toNat) := fun n =>
    decide_eq_decide.mpr UInt8.toNat_inj.symm
  exact congrArg₂ or (hbyte 32) (hbyte 9)

theorem last_byte_of_char {c : Char} (hc : isIndent c = false) :
    ∃ bs b, encode (String.ofList [c]) = bs ++ [b] ∧ isIndentByte b = false := by
  rw [encode_char]
  have hlate : ∀ n : Nat, isIndentByte (UInt8.ofNat (n % 64 + 128)) = false := by
    intro n
    rw [is_indent_byte_eq, UInt8.toNat_ofNat', Bool.or_eq_false_iff, decide_eq_false_iff_not,
      decide_eq_false_iff_not]
    omega
  unfold String.utf8EncodeChar
  simp only
  split
  · next hascii =>
    refine ⟨[], _, rfl, ?_⟩
    have hchar : ∀ d : Char, c.val.toNat = d.val.toNat → c = d := fun d heq =>
      Char.ext (UInt32.toNat_inj.mp heq)
    simp only [isIndent, Bool.or_eq_false_iff, decide_eq_false_iff_not] at hc
    rw [is_indent_byte_eq, UInt8.toNat_ofNat', Nat.mod_eq_of_lt (by omega), Bool.or_eq_false_iff,
      decide_eq_false_iff_not, decide_eq_false_iff_not]
    exact ⟨fun heq => hc.1 (hchar ' ' heq), fun heq => hc.2 (hchar '\t' heq)⟩
  · split
    · exact ⟨[_], _, rfl, hlate _⟩
    · split
      · exact ⟨[_, _], _, rfl, hlate _⟩
      · exact ⟨[_, _, _], _, rfl, hlate _⟩

theorem encode_indent {c : Char} (hc : isIndent c = true) :
    ∃ b, encode (String.ofList [c]) = [b] ∧ isIndentByte b = true := by
  simp only [isIndent, Bool.or_eq_true, decide_eq_true_eq] at hc
  rcases hc with rfl | rfl
  · exact ⟨32, encode_char ' ', rfl⟩
  · exact ⟨9, encode_char '\t', rfl⟩

/-- Characters end with as many bytes of an indent as they end with spaces and tabs. -/
theorem indent_at_end (cs : List Char) :
    ∃ kept indent, cs = kept ++ indent ∧ (∀ c ∈ indent, isIndent c = true) ∧
      (∀ c ∈ kept.getLast?, isIndent c = false) ∧ sizeOfChars indent = indent.length ∧
      ((encode (String.ofList cs)).reverse.takeWhile isIndentByte).length = indent.length := by
  induction cs using List.reverseRecOn with
  | nil => exact ⟨[], [], rfl, nofun, nofun, rfl, by rw [String.ofList_nil, encode_empty]; rfl⟩
  | append_singleton cs c ih =>
    rw [encode_of_list_append, List.reverse_append]
    cases hc : isIndent c with
    | true =>
      obtain ⟨kept, indent, rfl, hindent, hkept, hsize, hlength⟩ := ih
      obtain ⟨b, hb, hbyte⟩ := encode_indent hc
      refine ⟨kept, indent ++ [c], List.append_assoc .., ?_, hkept, ?_, ?_⟩
      · exact List.forall_mem_append.mpr ⟨hindent, List.forall_mem_singleton.mpr hc⟩
      · have hone : sizeOfChars [c] = 1 := by
          rw [← encode_of_list_length, hb]
          rfl
        rw [size_of_chars_append, hsize, hone, List.length_append]
        rfl
      · rw [hb, List.reverse_singleton, List.singleton_append, List.takeWhile_cons_of_pos hbyte,
          List.length_cons, hlength, List.length_append]
        rfl
    | false =>
      obtain ⟨bs, b, hb, hbyte⟩ := last_byte_of_char hc
      refine ⟨cs ++ [c], [], (List.append_nil _).symm, nofun, fun d hd => ?_, rfl, ?_⟩
      · rw [List.getLast?_concat] at hd
        exact Option.some.inj hd ▸ hc
      · rw [hb, List.reverse_append, List.reverse_singleton, List.singleton_append,
          List.cons_append, List.takeWhile_cons_of_neg (by rw [hbyte]; exact Bool.false_ne_true)]
        rfl

/-- Going back over an indent leaves the characters before it. -/
theorem back_over_indent_eq {text : String} {front behind : List Char}
    (htext : text.toList = front ++ behind) :
    ∃ kept indent, front = kept ++ indent ∧ (∀ c ∈ indent, isIndent c = true) ∧
      (∀ c ∈ kept.getLast?, isIndent c = false) ∧
      backOverIndent (encode text) (sizeOfChars front) = sizeOfChars kept := by
  obtain ⟨kept, indent, rfl, hindent, hkept, hsize, hlength⟩ := indent_at_end front
  refine ⟨kept, indent, rfl, hindent, hkept, ?_⟩
  have htake : (encode text).take (sizeOfChars (kept ++ indent)) =
      encode (String.ofList (kept ++ indent)) := by
    rw [← String.ofList_toList (s := text), htext, encode_of_list_append,
      ← encode_of_list_length (kept ++ indent), List.take_left]
  have hblank : (fun b : UInt8 => decide (b = 32) || decide (b = 9)) = isIndentByte := rfl
  rw [backOverIndent, htake, hblank, hlength, size_of_chars_append, hsize]
  exact Nat.add_sub_cancel ..

theorem not_break_of_indent {c : Char} (h : isIndent c = true) : isBreak c = false := by
  simp only [isIndent, Bool.or_eq_true, decide_eq_true_eq] at h
  rcases h with rfl | rfl <;> rfl

theorem Clear.back_over_indent {text : String} {place : Nat} (h : Clear text place) :
    Clear text (backOverIndent (encode text) place) := by
  obtain ⟨before, behind, rfl, hplace⟩ := h.boundary
  have hsize : sizeOfChars before.toList = place := by
    rw [encode_length] at hplace
    exact Int.ofNat_inj.mp hplace
  have htext : (before ++ behind).toList = before.toList ++ behind.toList := String.toList_append
  obtain ⟨kept, indent, hfront, hindent, _, heq⟩ := back_over_indent_eq htext
  rw [← hsize, heq]
  cases indent with
  | nil =>
    rw [List.append_nil] at hfront
    exact hfront ▸ hsize ▸ h
  | cons c indent =>
    have hc := not_break_of_indent (hindent c (List.mem_cons_self ..))
    refine .inl ⟨c, _, ⟨kept, indent ++ behind.toList, ?_, rfl, rfl⟩, hc⟩
    rw [htext, hfront]
    simp

/-- No indent goes back over a character that is none. -/
theorem le_back_over_indent {text : String} {start stop place : Nat} {c : Char}
    (hc : StandsAt text start stop [c]) (hindent : isIndent c = false)
    (hplace : Boundary text place) (hle : stop ≤ place) :
    stop ≤ backOverIndent (encode text) place := by
  obtain ⟨cs, hcs⟩ := stands_between (stands_at_stop hc) hplace hle
  obtain ⟨before, behind, htext, hstart, hstop⟩ := hc.append hcs
  rw [← List.append_assoc] at htext
  obtain ⟨kept, indent, hfront, hblank, hkept, heq⟩ := back_over_indent_eq htext
  have hsize : sizeOfChars (before ++ ([c] ++ cs)) = place := by
    rw [size_of_chars_append, hstart, hstop]
  rw [← hsize, heq]
  have hlast : sizeOfChars (before ++ [c]) = stop := by
    rw [size_of_chars_append, hstart, hc.size]
  rw [← List.append_assoc] at hfront
  rcases List.append_eq_append_iff.mp hfront with ⟨more, hmore, _⟩ | ⟨more, hmore, hrest⟩
  · rw [hmore, size_of_chars_append]
    omega
  · rcases List.eq_nil_or_concat more with rfl | ⟨front, last, rfl⟩
    · rw [List.append_nil] at hmore
      exact Nat.le_of_eq (hmore ▸ hlast.symm)
    · rw [List.concat_eq_append, ← List.append_assoc] at hmore
      obtain rfl := (List.append_inj' hmore rfl).2 |> List.singleton_inj.mp
      have hmem : c ∈ indent := hrest ▸ by simp
      rw [hblank c hmem] at hindent
      nomatch hindent

/-! ## The edits that findings offer -/

/-- A span of the text between clear places. -/
def Bordered (text : String) (s : Span) : Prop :=
  ∃ a b : Nat, s = ⟨a, b⟩ ∧ a < b ∧ Clear text a ∧ Clear text b

section Calls
variable {text : String} {x : Extent} {func : Expr} {arguments : List Expr} {site : CallSite}

theorem bordered_of_shown {e : Expr} (h : e.Placed) (hshown : e.Shown text) :
    Bordered text e.span :=
  ⟨e.extent.start, e.extent.stop, rfl, h.start_lt, .inl hshown.opens, .inr hshown.closes⟩

theorem mem_argument_span {key : ArgumentKey} {span : Span}
    (h : (key, span) ∈ argumentSpans arguments) :
    ∃ a ∈ arguments, key = argumentKey a ∧ span = a.span := by
  obtain ⟨a, ha, heq⟩ := List.mem_map.mp (mem_sort_by.mp h)
  obtain ⟨rfl, rfl⟩ := Prod.mk.inj heq
  exact ⟨a, ha, rfl, rfl⟩

theorem is_keyword_of_key {a : Expr} {name : String} (h : argumentKey a = .named name) :
    a.isKeyword = true := by
  cases a with
  | keyword y key v => rfl
  | _ => nomatch h

/-- What goes with a named argument lies between clear places behind what is called. -/
theorem removed_span_bordered (h : (Expr.call x func arguments).Placed)
    (hshown : (Expr.call x func arguments).Shown text) {index : Nat} {name : String} {own : Span}
    (hget : (argumentSpans arguments)[index]? = some (.named name, own)) :
    ∃ a b : Nat, removedSpan (argumentSpans arguments) index x.span own = ⟨a, b⟩ ∧ a < b ∧
      Clear text a ∧ Clear text b ∧ func.extent.stop ≤ a := by
  have hfits := removed_span_fits h hget
  have hchild : ∀ d ∈ arguments, d ∈ (Expr.call x func arguments).children :=
    fun _ => List.mem_cons_of_mem func
  have hplace : ∀ {key span}, (key, span) ∈ argumentSpans arguments →
      ∃ d ∈ arguments, span = d.span ∧ Opens text d.extent.start ∧ Closes text d.extent.stop ∧
        func.extent.stop ≤ d.extent.start ∧ d.extent.start < d.extent.stop := by
    intro key span hmem
    obtain ⟨d, hd, _, rfl⟩ := mem_argument_span hmem
    have hd' := hshown.child (hchild d hd)
    exact ⟨d, hd, rfl, hd'.opens, hd'.closes, h.fitted.2.2 d hd, (h.child (hchild d hd)).start_lt⟩
  obtain ⟨d, hd, rfl, hopens, hcloses, hafter, hlt⟩ := hplace (List.mem_of_getElem? hget)
  have hstart := hfits.start_lt
  unfold removedSpan at hstart ⊢
  split
  · next key next hnext =>
    obtain ⟨n, _, rfl, hnextOpens, _⟩ := hplace (List.mem_of_getElem? hnext)
    rw [hnext] at hstart
    exact ⟨d.extent.start, n.extent.start, rfl, Int.ofNat_lt.mp hstart, .inl hopens,
      .inl hnextOpens, hafter⟩
  · next hnone =>
    rw [hnone] at hstart
    split
    · obtain ⟨a, ha, hkey, _⟩ := mem_argument_span (List.mem_of_getElem? hget)
      have hbracket := hshown.bracket ⟨a, ha, is_keyword_of_key hkey.symm⟩
      have hstop : (Expr.call x func arguments).extent.start < x.stop := h.start_lt
      refine ⟨d.extent.start, x.stop - 1, ?_, ?_, .inl hopens, .inl hbracket, hafter⟩
      · simp only [Extent.span, Expr.span, Span.mk.injEq, true_and]
        omega
      · simp only [Extent.span, Expr.span] at hstart
        omega
    · next k _ =>
      split
      · next key previous hprevious =>
        obtain ⟨p, _, rfl, _, hpCloses, hpAfter, hpLt⟩ := hplace (List.mem_of_getElem? hprevious)
        simp only [hprevious] at hstart
        refine ⟨p.extent.stop, d.extent.stop, rfl, Int.ofNat_lt.mp hstart, .inr hpCloses,
          .inr hcloses, by omega⟩
      · exact ⟨d.extent.start, d.extent.stop, rfl, hlt, .inl hopens, .inr hcloses, hafter⟩

theorem opens_of_stands {a b : Nat} {c : Char} {cs : List Char} (h : StandsAt text a b (c :: cs))
    (hc : isBreak c = false) : Opens text a := by
  obtain ⟨before, behind, htext, hstart, _⟩ := h
  exact ⟨c, _, ⟨before, cs ++ behind, by rw [htext]; rfl, hstart, rfl⟩, hc⟩

theorem closes_of_stands {a b : Nat} {c : Char} {cs : List Char}
    (h : StandsAt text a b (cs ++ [c])) :
    ∃ start, StandsAt text start b [c] := by
  obtain ⟨before, behind, htext, hstart, hstop⟩ := h
  refine ⟨a + sizeOfChars cs, before ++ cs, behind, ?_, ?_, ?_⟩
  · rw [htext]
    simp
  · rw [size_of_chars_append, hstart]
  · rw [size_of_chars_append] at hstop
    omega

theorem plain_of_word {c : Char} (hc : Lexer.isWordChar c = true) :
    isBreak c = false ∧ isIndent c = false := by
  constructor
  · refine not_break_iff.mpr ⟨?_, ?_⟩ <;> rintro rfl <;> nomatch hc
  · by_contra hnot
    rw [Bool.not_eq_false, isIndent, Bool.or_eq_true, decide_eq_true_eq, decide_eq_true_eq] at hnot
    rcases hnot with rfl | rfl <;> nomatch hc

theorem word_borders {a b : Nat} {cs : List Char} (h : StandsAt text a b cs) (hlt : a < b)
    (hword : ∀ c ∈ cs, Lexer.isWordChar c = true) : Clear text a ∧
      ∃ c start, StandsAt text start b [c] ∧ isBreak c = false ∧ isIndent c = false := by
  have hne : cs ≠ [] := by
    rintro rfl
    have hadd := h.size
    rw [sizeOfChars] at hadd
    omega
  constructor
  · obtain ⟨c, rest, rfl⟩ := List.exists_cons_of_ne_nil hne
    exact .inl (opens_of_stands h (plain_of_word (hword c (List.mem_cons_self ..))).1)
  · have hlast := List.getLast_mem hne
    rw [← List.dropLast_concat_getLast hne] at h
    obtain ⟨start, hc⟩ := closes_of_stands h
    exact ⟨_, start, hc, plain_of_word (hword _ hlast)⟩

/-- The name of a method is a word at the end of what is called. -/
theorem name_span_stands (h : (Expr.call x func arguments).Placed)
    (hshown : (Expr.call x func arguments).Shown text) (hsite : RecordOf site x func arguments)
    {span : Span} (hspan : site.nameSpan = some span) :
    ∃ (a : Nat) (cs : List Char), span = ⟨a, func.extent.stop⟩ ∧ a < func.extent.stop ∧
      StandsAt text a func.extent.stop cs ∧ ∀ c ∈ cs, Lexer.isWordChar c = true := by
  obtain ⟨y, v, attr, rfl, rfl⟩ := hsite.name span hspan
  have hfunc : Expr.member y v attr ∈ (Expr.call x (.member y v attr) arguments).children :=
    List.mem_cons_self ..
  obtain ⟨hpos, hsize⟩ := (h.child hfunc).fitted
  obtain ⟨hstands, hword⟩ := (hshown.child hfunc).name
  simp only [Expr.extent] at hsize ⊢
  refine ⟨y.stop - attr.utf8ByteSize, attr.toList, ?_, by omega, hstands, hword⟩
  rw [Span.mk.injEq]
  omega

/-- The edits of a fill lie between clear places, and the name ends before the removal begins. -/
theorem fill_edits_bordered (h : (Expr.call x func arguments).Placed)
    (hshown : (Expr.call x func arguments).Shown text) (hsite : RecordOf site x func arguments) :
    (∀ e ∈ fillEdits text site, Bordered text e.span) ∧
      (fillEdits text site).Pairwise fun a b => a.span.stop ≤ b.span.start := by
  rcases fill_edits_eq text site with heq | ⟨nameSpan, index, own, hname, hget, heq⟩
  · rw [heq]
    exact ⟨nofun, .nil⟩
  · rw [hsite.spans] at hget heq
    rw [CallSite.span, hsite.extent] at heq
    obtain ⟨n, cs, rfl, hlt, hstands, hword⟩ := name_span_stands h hshown hsite hname
    obtain ⟨hstart, c, start, hc, hbreak, hindent⟩ := word_borders hstands hlt hword
    obtain ⟨a, b, hspan, hab, ha, hb, hafter⟩ := removed_span_bordered h hshown hget
    rw [hspan] at heq
    have hremoval : ∃ a' : Nat, removal text ⟨a, b⟩ = ⟨a', b⟩ ∧ a' < b ∧ Clear text a' ∧
        func.extent.stop ≤ a' := by
      unfold removal
      split
      · refine ⟨backOverIndent (encode text) a, rfl, ?_, ha.back_over_indent,
          le_back_over_indent hc hindent ha.boundary hafter⟩
        exact Nat.lt_of_le_of_lt (Nat.sub_le ..) hab
      · exact ⟨a, rfl, hab, ha, hafter⟩
    obtain ⟨a', hmoved, hab', ha', hafter'⟩ := hremoval
    rw [heq, hmoved]
    refine ⟨List.forall_mem_cons.mpr ⟨?_, List.forall_mem_singleton.mpr ?_⟩, ?_⟩
    · exact ⟨n, func.extent.stop, rfl, hlt, hstart, .inr ⟨c, start, hc, hbreak⟩⟩
    · exact ⟨a', b, rfl, hab', ha', hb⟩
    · refine List.pairwise_cons.mpr ⟨List.forall_mem_singleton.mpr ?_, List.pairwise_singleton ..⟩
      exact Int.ofNat_le.mpr hafter'

/-- The value of an argument by name lies between clear places. -/
theorem keyword_edit_bordered (h : (Expr.call x func arguments).Placed)
    (hshown : (Expr.call x func arguments).Shown text) (hsite : RecordOf site x func arguments)
    {name : String} {replacement : Span → String} {e : Edit}
    (he : e ∈ keywordEdit site name replacement) : Bordered text e.span := by
  have hspans := mem_of_lookup (mem_keyword_edit he).1
  rw [hsite.values] at hspans
  obtain ⟨y, v, hargument, hspan⟩ := mem_keyword_spans hspans
  have hchild : Expr.keyword y (some name) v ∈ (Expr.call x func arguments).children :=
    List.mem_cons_of_mem func hargument
  have hvalue : v ∈ (Expr.keyword y (some name) v).children := List.mem_singleton_self v
  simp only at hspan
  rw [hspan]
  exact bordered_of_shown ((h.child hchild).child hvalue) ((hshown.child hchild).child hvalue)

end Calls

theorem offered_edits_bordered {text name : String} {unit : SourceUnit}
    (h : SourceUnit.parse text name = .ok unit) {r : Rules.Rule} {es : List Edit}
    (hes : Offers unit r es) : ∀ e ∈ es, Bordered text e.span := by
  intro e he
  cases hes with
  | nothing => nomatch he
  | shift ha hreads =>
    obtain ⟨r, hr, rfl⟩ := mem_shift_edits he
    obtain ⟨d, hextent, hplaced, hshown⟩ := expression_of_read h ha (hreads hr)
    change Bordered text r.extent.span
    rw [hextent]
    exact bordered_of_shown hplaced hshown
  | label hsite | window hsite =>
    obtain ⟨x, func, arguments, hrecord, hplaced, hshown, _⟩ := call_of_site h hsite
    exact keyword_edit_bordered hplaced hshown hrecord he
  | fill hsite =>
    obtain ⟨x, func, arguments, hrecord, hplaced, hshown, _⟩ := call_of_site h hsite
    rw [(SourceUnit.parse_eq_ok h).1] at he
    exact (fill_edits_bordered hplaced hshown hrecord).1 e he

end BacktestAudit.Fix
