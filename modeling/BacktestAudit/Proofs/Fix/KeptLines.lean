import BacktestAudit.Proofs.Fix.Borders
import BacktestAudit.Proofs.Source.Breaks

/-!
Lines of a text whose edits are made. When each edit keeps the line breaks of what it replaces, and
no pair of breaks comes of what is put together, the text keeps its breaks, and each character that
no edit replaces stays on its line.
-/
namespace BacktestAudit.Fix
open BacktestAudit.Source BacktestAudit.Syntax BacktestAudit.Text
set_option autoImplicit false

/-! ## Parts of a text -/

/-- A place of a text that is not between the two characters of a pair of breaks. -/
def PartedAt (text : String) (place : Nat) : Prop :=
  ∃ front behind, text.toList = front ++ behind ∧ sizeOfChars front = place ∧ Parted front behind

section Places
variable {text : String} {a b place : Nat} {cs ds : List Char}

theorem PartedAt.boundary (h : PartedAt text place) : Boundary text place := by
  obtain ⟨front, behind, htext, hsize, _⟩ := h
  refine ⟨.ofList front, .ofList behind, ?_, ?_⟩
  · rw [← String.ofList_append, ← htext, String.ofList_toList]
  · rw [encode_of_list_length, hsize]

theorem parted_at_start (text : String) : PartedAt text 0 :=
  ⟨[], text.toList, rfl, rfl, nil_parted _⟩

theorem parted_at_end (text : String) : PartedAt text (encode text).length :=
  ⟨text.toList, [], (List.append_nil _).symm, (encode_length text).symm, parted_nil _⟩

theorem PartedAt.parts (h : PartedAt text place) (hcs : StandsAt text a place cs)
    (hds : StandsAt text place b ds) : Parted cs ds := by
  obtain ⟨front, behind, htext, hsize, hparted⟩ := h
  obtain ⟨before, rest, htext', hstart, hstop⟩ := hcs
  obtain ⟨before', behind', htext'', hstart', _⟩ := hds
  have hfront : front = before ++ cs := by
    refine (cut_unique (htext.symm.trans (htext'.trans (List.append_assoc ..).symm)) ?_).1
    rw [size_of_chars_append, hsize, hstart, hstop]
  have hbehind : behind = ds ++ behind' :=
    (cut_unique (htext.symm.trans htext'') (hsize.trans hstart'.symm)).2
  intro hlast hhead
  refine hparted ?_ ?_
  · rw [hfront, List.getLast?_append, hlast]
    rfl
  · rw [hbehind, List.head?_append, hhead]
    rfl

theorem Clear.parted_at (h : Clear text place) : PartedAt text place := by
  obtain ⟨before, behind, rfl, hplace⟩ := h.boundary
  have hsize : sizeOfChars before.toList = place := by
    rw [encode_length] at hplace
    exact Int.ofNat_inj.mp hplace
  refine ⟨before.toList, behind.toList, String.toList_append, hsize, fun hlast hhead => ?_⟩
  subst hsize
  rcases h.apart String.toList_append with ⟨c, hc, hbreak⟩ | ⟨c, hc, hbreak⟩
  · obtain rfl := Option.some.inj (hhead.symm.trans hc)
    nomatch hbreak
  · obtain rfl := Option.some.inj (hlast.symm.trans hc)
    nomatch hbreak

theorem stretch_of_stands_at (h : StandsAt text a b cs) :
    stretch (encode text) a b = encode (String.ofList cs) :=
  (bytes_of_stands_at h).1

theorem stands_around (h : StandsAt text a b cs) : ∃ before behind,
    text.toList = before ++ (cs ++ behind) ∧ StandsAt text 0 a before ∧
      StandsAt text b (encode text).length behind := by
  obtain ⟨before, behind, htext, hstart, hstop⟩ := h
  have hsize := encode_length text
  rw [htext, size_of_chars_append, size_of_chars_append] at hsize
  refine ⟨before, behind, htext, ⟨[], cs ++ behind, htext, rfl, by omega⟩,
    ⟨before ++ cs, [], ?_, ?_, by omega⟩⟩
  · rw [htext, List.append_nil, List.append_assoc]
  · rw [size_of_chars_append]
    omega

theorem front_unique {front behind : List Char} (h : StandsAt text 0 place cs)
    (htext : text.toList = front ++ behind) (hsize : sizeOfChars front = place) : cs = front := by
  obtain ⟨before, rest, htext', hstart, hstop⟩ := h
  obtain rfl := eq_nil_of_size hstart
  rw [List.nil_append] at htext'
  exact (cut_unique (htext'.symm.trans htext) (by omega)).1

end Places

/-! ## Parts that are replaced -/

/-- A relation of parts of a text to what replaces them: a part may be left as it is, what replaces
two parts replaces the two together, and the line breaks are kept. -/
structure Joins (text : String) (R : List Char → List Char → Prop) : Prop where
  same : ∀ {a b : Nat} {cs : List Char}, PartedAt text a → PartedAt text b →
    StandsAt text a b cs → R cs cs
  append : ∀ {as bs cs ds : List Char}, Parted as cs → R as bs → R cs ds → R (as ++ cs) (bs ++ ds)
  breaks : ∀ {cs ds : List Char}, R cs ds → lineBreaks ds = lineBreaks cs

/-- An edit between clear places whose text may replace what it replaces. -/
def Replaces (text : String) (R : List Char → List Char → Prop) (e : Edit) : Prop :=
  Bordered text e.span ∧ R (segment text e.span).toList e.replacement.toList

section Weaving
variable {text spliced : String} {R : List Char → List Char → Prop} {es : List Edit}

/-- What is woven between two places replaces what stands there. -/
theorem weave_joined (hR : Joins text R) (hes : ∀ e ∈ es, Replaces text R e)
    (horder : es.Pairwise fun a b => a.span.stop ≤ b.span.start) {a b : Nat}
    (ha : PartedAt text a) (hb : PartedAt text b) (hab : a ≤ b)
    (hfirst : ∀ e ∈ es, (a : Int) ≤ e.span.start) (hlast : ∀ e ∈ es, e.span.stop ≤ b) :
    ∃ cs ds, StandsAt text a b cs ∧
      weave (encode text) a b es = encode (String.ofList ds) ∧ R cs ds := by
  induction es generalizing a with
  | nil =>
    obtain ⟨cs, hcs⟩ := stands_between ha.boundary hb.boundary hab
    exact ⟨cs, cs, hcs, stretch_of_stands_at hcs, hR.same ha hb hcs⟩
  | cons e es ih =>
    obtain ⟨⟨s, t, hspan, hst, hs, ht⟩, hreplaced⟩ := hes e (List.mem_cons_self ..)
    obtain ⟨hnext, htail⟩ := List.pairwise_cons.mp horder
    have has := hfirst e (List.mem_cons_self ..)
    have htb := hlast e (List.mem_cons_self ..)
    rw [hspan] at hreplaced hnext has htb
    obtain ⟨gap, hgap⟩ := stands_between ha.boundary hs.boundary (Int.ofNat_le.mp has)
    obtain ⟨own, hown⟩ := stands_between hs.boundary ht.boundary (Nat.le_of_lt hst)
    obtain ⟨cs, ds, hcs, hwoven, hrest⟩ := ih (fun d hd => hes d (List.mem_cons_of_mem e hd)) htail
      ht.parted_at (Int.ofNat_le.mp htb) hnext fun d hd => hlast d (List.mem_cons_of_mem e hd)
    rw [segment_of_stands_at hown, String.toList_ofList] at hreplaced
    refine ⟨gap ++ (own ++ cs), gap ++ (e.replacement.toList ++ ds), hgap.append (hown.append hcs),
      ?_, ?_⟩
    · rw [weave, hspan, hwoven, stretch_of_stands_at hgap, encode_of_list_append,
        encode_of_list_append, String.ofList_toList, List.append_assoc]
    · refine hR.append (hs.parted_at.parts hgap (hown.append hcs)) (hR.same ha hs.parted_at hgap) ?_
      exact hR.append (ht.parted_at.parts hown hcs) hreplaced hrest

/-- Edits in order are those that end up to a place and those that begin behind it. -/
theorem split_at_place {length : Nat} {ds : List Edit} (h : InOrder length ds) {p q : Nat}
    (hout : ∀ e ∈ ds, e.span.stop ≤ p ∨ (q : Int) ≤ e.span.start) :
    ∃ as bs, ds = as ++ bs ∧ (∀ e ∈ as, e.span.stop ≤ p) ∧
      ∀ e ∈ bs, (q : Int) ≤ e.span.start := by
  induction ds with
  | nil => exact ⟨[], [], rfl, nofun, nofun⟩
  | cons e ds ih =>
    rcases hout e (List.mem_cons_self ..) with hbefore | hbehind
    · obtain ⟨as, bs, rfl, has, hbs⟩ := ih h.tail fun d hd => hout d (List.mem_cons_of_mem e hd)
      exact ⟨e :: as, bs, rfl, List.forall_mem_cons.mpr ⟨hbefore, has⟩, hbs⟩
    · refine ⟨[], e :: ds, rfl, nofun, List.forall_mem_cons.mpr ⟨hbehind, fun d hd => ?_⟩⟩
      have hlt := (h.fits e (List.mem_cons_self ..)).start_lt
      have hnext := h.head_le d hd
      omega

theorem displacement_of_split {length : Nat} {as bs : List Edit} (h : InOrder length (as ++ bs))
    {p : Nat} (has : ∀ e ∈ as, e.span.stop ≤ p) (hbs : ∀ e ∈ bs, (p : Int) ≤ e.span.start) :
    displacement (as ++ bs) p = (as.map growth).sum := by
  have hbehind : ∀ e ∈ bs, ¬ decide (e.span.stop ≤ p) = true := by
    intro e he
    have hlt := (h.fits e (List.mem_append_right as he)).start_lt
    have hstart := hbs e he
    simp only [decide_eq_true_eq]
    omega
  have hbefore : ∀ e ∈ as, decide (e.span.stop ≤ p) = true := fun e he => decide_eq_true (has e he)
  rw [displacement, List.filter_append, List.filter_eq_self.mpr hbefore,
    List.filter_eq_nil_iff.mpr hbehind, List.append_nil]

/-! ## Lines -/

/-- What is left of a text when edits are made, part by part. -/
structure Made (text spliced : String) (R : List Char → List Char → Prop) (es : List Edit) :
    Prop where
  joins : Joins text R
  separate : Separate (encode text).length es
  replaces : ∀ e ∈ es, Replaces text R e
  eq : encode spliced = made (encode text) es

theorem Made.in_order (h : Made text spliced R es) :
    InOrder (encode text).length (inSpanOrder es) ∧
      (∀ e ∈ inSpanOrder es, Replaces text R e) ∧
      encode spliced = weave (encode text) 0 (encode text).length (inSpanOrder es) := by
  have horder := h.separate.in_order
  refine ⟨horder, fun e he => h.replaces e ((in_span_order_perm es).mem_iff.mp he), ?_⟩
  rw [h.eq, made, splice_bytes_eq_weave horder]

theorem Made.breaks (h : Made text spliced R es) :
    lineBreaks spliced.toList = lineBreaks text.toList := by
  obtain ⟨horder, hreplaces, heq⟩ := h.in_order
  obtain ⟨cs, ds, hcs, hwoven, hjoined⟩ :=
    weave_joined h.joins hreplaces horder.pairwise (parted_at_start text) (parted_at_end text)
      (Nat.zero_le _) (fun e he => (horder.fits e he).nonneg) fun e he => (horder.fits e he).stop_le
  have hall := front_unique hcs (List.append_nil _).symm (encode_length text).symm
  rw [encode_injective (heq.trans hwoven), String.toList_ofList, h.joins.breaks hjoined, hall]

theorem chars_of_encode {us vs : List Char}
    (h : encode spliced = encode (String.ofList us) ++ encode (String.ofList vs)) :
    spliced.toList = us ++ vs := by
  rw [← encode_of_list_append] at h
  rw [encode_injective h, String.toList_ofList]

/-- The edits that end up to a place make what is before it, those behind it what is behind. -/
theorem Made.before_place (h : Made text spliced R es) {as bs : List Edit}
    (hsplit : inSpanOrder es = as ++ bs) {place : Nat} (hplace : PartedAt text place)
    (hlength : place ≤ (encode text).length) (has : ∀ e ∈ as, e.span.stop ≤ place)
    (hbs : ∀ e ∈ bs, (place : Int) ≤ e.span.start) :
    ∃ cs us, StandsAt text 0 place cs ∧ R cs us ∧
      (sizeOfChars us : Int) = place + (as.map growth).sum ∧
      encode spliced = encode (String.ofList us) ++
        weave (encode text) place (encode text).length bs := by
  obtain ⟨horder, hreplaces, heq⟩ := h.in_order
  rw [hsplit] at horder hreplaces heq
  have hasOrder := horder.append.1
  have hfirst : ∀ e ∈ as, (0 : Int) ≤ e.span.start := fun e he => (hasOrder.fits e he).nonneg
  obtain ⟨cs, us, hcs, hus, hjoined⟩ := weave_joined h.joins
    (fun e he => hreplaces e (List.mem_append_left bs he)) hasOrder.pairwise
    (parted_at_start text) hplace (Nat.zero_le place) hfirst has
  have hus' : weave (encode text) 0 place as = encode (String.ofList us) := hus
  refine ⟨cs, us, hcs, hjoined, ?_, ?_⟩
  · have hwoven := weave_length hasOrder hfirst has (Int.le_refl 0) (Int.natCast_nonneg place)
      (Int.ofNat_le.mpr hlength)
    rw [hus', encode_of_list_length, Int.sub_zero] at hwoven
    exact hwoven
  · rw [heq, weave_append (encode text) hasOrder hfirst has hbs (Int.natCast_nonneg place)
      (Int.ofNat_le.mpr hlength), hus']

/-- A character that no edit replaces stands where those before it move it, on the same line. -/
theorem Made.line_at (h : Made text spliced R es) {p q : Nat} {c : Char}
    (hc : StandsAt text p q [c]) (hbreak : isBreak c = false)
    (hout : ∀ e ∈ es, e.span.stop ≤ p ∨ (q : Int) ≤ e.span.start) :
    ∃ p' q' : Nat, (p' : Int) = p + displacement es p ∧ StandsAt spliced p' q' [c] ∧
      lineAt spliced p' = lineAt text p := by
  obtain ⟨horder, hreplaces, _⟩ := h.in_order
  have hperm := in_span_order_perm es
  obtain ⟨as, bs, hsplit, has, hbs⟩ :=
    split_at_place horder fun e he => hout e (hperm.mem_iff.mp he)
  rw [hsplit] at horder hreplaces
  obtain ⟨_, hpLength, hqLength⟩ := bytes_of_stands_at hc
  have hsize := hc.size
  have hbehind : ∀ e ∈ bs, (p : Int) ≤ e.span.start := fun e he =>
    Int.le_trans (by omega) (hbs e he)
  obtain ⟨cs, us, hcs, hjoined, hplace, heq⟩ :=
    h.before_place hsplit (Clear.parted_at (.inl ⟨c, q, hc, hbreak⟩)) hpLength has hbehind
  obtain ⟨_, vs, _, hvs, _⟩ := weave_joined h.joins
    (fun e he => hreplaces e (List.mem_append_right as he)) horder.append.2.pairwise
    (Clear.parted_at (.inr ⟨c, p, hc, hbreak⟩)) (parted_at_end text) hqLength hbs
    fun e he => (horder.append.2.fits e he).stop_le
  have hnil : InOrder (encode text).length [] := ⟨nofun, .nil⟩
  have hgap : weave (encode text) p (encode text).length bs =
      weave (encode text) p q [] ++ weave (encode text) q (encode text).length bs :=
    weave_append (encode text) hnil nofun nofun hbs (by omega) (Int.ofNat_le.mpr hqLength)
  rw [hgap, hvs, weave, stretch_of_stands_at hc, ← encode_of_list_append] at heq
  have hspliced := chars_of_encode heq
  rw [← displacement_of_split horder has hbehind, ← hsplit, displacement_perm hperm] at hplace
  refine ⟨sizeOfChars us, _, hplace, ⟨us, vs, hspliced, rfl, rfl⟩, ?_⟩
  have hfeed : c ≠ '\n' := (not_break_iff.mp hbreak).2
  obtain ⟨front, rest, htext, hfront, _⟩ := hc
  rw [line_at_eq hspliced (parted_of_head hfeed), h.joins.breaks hjoined,
    front_unique hcs htext hfront, ← hfront, line_at_eq htext (parted_of_head hfeed)]

/-! ## The end of a text -/

theorem ends_line_of_clear (h : Clear text (encode text).length) :
    endsLine text.toList = false := by
  rcases h with ⟨c, stop, hc, _⟩ | ⟨c, start, ⟨before, behind, htext, hstart, hstop⟩, hbreak⟩
  · obtain ⟨_, _, hle⟩ := bytes_of_stands_at hc
    have hsize := hc.size
    have hpos := c.utf8Size_pos
    rw [size_of_chars_cons] at hsize
    omega
  · have hcut : text.toList ++ [] = (before ++ [c]) ++ behind := by
      rw [List.append_nil, htext, List.append_assoc]
    have hsize : sizeOfChars text.toList = sizeOfChars (before ++ [c]) := by
      rw [size_of_chars_append, hstart, hstop, encode_length]
    rw [(cut_unique hcut hsize).1, ends_line_concat, hbreak]

/-- The last edit leaves what is behind it. -/
theorem Made.last_edit (h : Made text spliced R es) {as : List Edit} {e : Edit}
    (hsplit : inSpanOrder es = as ++ [e]) : ∃ (t : Nat) (front us gap : List Char),
      e.span.stop = t ∧ Clear text t ∧ StandsAt text t (encode text).length gap ∧
      text.toList = front ++ gap ∧ spliced.toList = us ++ (e.replacement.toList ++ gap) := by
  obtain ⟨horder, hreplaces, _⟩ := h.in_order
  rw [hsplit] at horder hreplaces
  obtain ⟨⟨s, t, hspan, hst, hs, ht⟩, _⟩ := hreplaces e (by simp)
  have hstop := (horder.append.2.fits e (List.mem_singleton_self e)).stop_le
  have hbefore := (List.pairwise_append.mp horder.pairwise).2.2
  simp only [List.forall_mem_singleton, hspan] at hstop hbefore
  have hlength : t ≤ (encode text).length := Int.ofNat_le.mp hstop
  have hfirst : ∀ d ∈ [e], (s : Int) ≤ d.span.start :=
    List.forall_mem_singleton.mpr (Int.le_of_eq (congrArg Span.start hspan).symm)
  obtain ⟨cs, us, hcs, _, _, heq⟩ :=
    h.before_place hsplit hs.parted_at (by omega) hbefore hfirst
  obtain ⟨own, hown⟩ := stands_between hs.boundary ht.boundary (Nat.le_of_lt hst)
  obtain ⟨gap, hgap⟩ := stands_between ht.boundary (boundary_end text) hlength
  have hnone : stretch (encode text) s s = [] := by simp [stretch]
  have htext := front_unique (hcs.append (hown.append hgap)) (List.append_nil _).symm
    (encode_length text).symm
  refine ⟨t, cs ++ own, us, gap, by rw [hspan], ht, hgap, ?_, chars_of_encode ?_⟩
  · rw [← htext, List.append_assoc]
  · rw [heq, weave, weave, hspan, hnone, stretch_of_stands_at hgap, encode_of_list_append,
      String.ofList_toList]
    rfl

theorem Made.ends (h : Made text spliced R es)
    (hend : ∀ e ∈ es, e.span.stop < (encode text).length ∨ endsLine e.replacement.toList = false) :
    endsLine spliced.toList = endsLine text.toList := by
  rcases List.eq_nil_or_concat (inSpanOrder es) with hnil | ⟨as, e, hsplit⟩
  · obtain ⟨_, _, heq⟩ := h.in_order
    rw [hnil, weave, stretch_zero, Int.toNat_natCast, List.take_length] at heq
    rw [encode_injective heq]
  · rw [List.concat_eq_append] at hsplit
    obtain ⟨t, front, us, gap, hstop, ht, hgap, htext, hspliced⟩ := h.last_edit hsplit
    cases gap with
    | cons c gap =>
      rw [htext, hspliced, ← List.append_assoc, ends_line_append _ (List.cons_ne_nil c gap),
        ends_line_append _ (List.cons_ne_nil c gap)]
    | nil =>
      -- The edit replaces the end of the text, which is at a clear place.
      obtain rfl : t = (encode text).length := hgap.size
      have hmem : e ∈ es := (in_span_order_perm es).mem_iff.mp (by rw [hsplit]; simp)
      have hlast := (hend e hmem).resolve_left (by rw [hstop]; exact Int.lt_irrefl _)
      have hne : e.replacement.toList ≠ [] := by
        intro hnil
        rw [hnil] at hlast
        cases hlast
      rw [hspliced, List.append_nil, ends_line_append us hne, hlast, ends_line_of_clear ht]

theorem Made.lines_length (h : Made text spliced R es)
    (hend : ∀ e ∈ es, e.span.stop < (encode text).length ∨ endsLine e.replacement.toList = false) :
    (lines spliced).length = (lines text).length := by
  rw [Source.lines_length, Source.lines_length, h.breaks, h.ends hend]

end Weaving

/-! ## What joins -/

/-- A part begins and ends with no half of a pair that what it replaces does not begin or end with,
and has its line breaks. -/
structure Alike (cs ds : List Char) : Prop where
  breaks : lineBreaks ds = lineBreaks cs
  head : ds.head? = some '\n' → cs.head? = some '\n'
  last : ds.getLast? = some '\r' → cs.getLast? = some '\r'
  empty : ds = [] → cs = []

theorem alike_joins (text : String) : Joins text Alike where
  same _ _ _ := ⟨rfl, id, id, id⟩
  breaks h := h.breaks
  append {as bs cs ds} hparted h h' := by
    have hparted' : Parted bs ds := fun hlast hhead => hparted (h.last hlast) (h'.head hhead)
    refine ⟨?_, fun hhead => ?_, fun hlast => ?_, fun hnil => ?_⟩
    · rw [line_breaks_append hparted, line_breaks_append hparted', h.breaks, h'.breaks]
    · cases bs with
      | nil =>
        rw [h.empty rfl]
        exact h'.head hhead
      | cons b bs =>
        rw [List.head?_append, h.head hhead]
        rfl
    · rcases List.eq_nil_or_concat ds with rfl | ⟨front, d, rfl⟩
      · rw [h'.empty rfl, List.append_nil]
        rw [List.append_nil] at hlast
        exact h.last hlast
      · rw [List.concat_eq_append, ← List.append_assoc, List.getLast?_concat] at hlast
        have hlast' : cs.getLast? = some '\r' := by
          refine h'.last ?_
          rw [List.concat_eq_append, List.getLast?_concat, hlast]
        rw [List.getLast?_append, hlast']
        rfl
    · obtain ⟨hbs, hds⟩ := List.append_eq_nil_iff.mp hnil
      rw [h.empty hbs, h'.empty hds]
      rfl

/-- A part without a kind of line break has the line breaks of what it replaces. -/
def Without (b : LineBreak) (cs ds : List Char) : Prop :=
  b ∉ lineBreaks cs ∧ lineBreaks ds = lineBreaks cs

theorem not_mem_line_breaks {text : String} {b : LineBreak} (h : b ∉ lineBreaks text.toList)
    {start stop : Nat} {cs : List Char} (hstart : PartedAt text start) (hstop : PartedAt text stop)
    (hcs : StandsAt text start stop cs) : b ∉ lineBreaks cs := by
  obtain ⟨before, behind, htext, hbefore, hbehind⟩ := stands_around hcs
  rw [htext, line_breaks_append (hstart.parts hbefore (hcs.append hbehind)),
    line_breaks_append (hstop.parts hcs hbehind), List.mem_append, List.mem_append] at h
  exact fun hmem => h (.inr (.inl hmem))

theorem without_joins {text : String} {b : LineBreak} (hb : b ≠ .pair)
    (h : b ∉ lineBreaks text.toList) : Joins text (Without b) where
  same hstart hstop hcs := ⟨not_mem_line_breaks h hstart hstop hcs, rfl⟩
  breaks h := h.2
  append {as bs cs ds} hparted h h' := by
    obtain ⟨has, hbs⟩ := h
    obtain ⟨hcs, hds⟩ := h'
    have hparted' : Parted bs ds := parted_of_not_mem hb (hbs ▸ has) (hds ▸ hcs)
    rw [Without, line_breaks_append hparted, line_breaks_append hparted', hbs, hds,
      List.mem_append, not_or]
    exact ⟨⟨has, hcs⟩, rfl⟩

end BacktestAudit.Fix
