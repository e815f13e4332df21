import Scriptlet.Proofs.JoinedFeeds
import Scriptlet.Proofs.MatchEnds
import Scriptlet.Proofs.Positionless

/-!
# Filling between tokens

Blanks and comments may be put in front of any token and behind it. The kinds and the texts of the
tokens stay what they are; only the tokens behind what was put in stand further behind.

A source is cut in two between two matches of the table. The question is what the filler does to the
match in front of the cut. Almost all matches end in front of a blank and of a slash as well as in
front of what was there before. The others take the filler into themselves: a run of blanks and a
run of line ends take further blanks, and a comment up to the end of the line takes everything. None
of them loses or wins a token by that. A number looks two characters past its digits, which may be
past the cut, but it looks for a dot with a digit behind it, and a filler does not bring the two
together.

Behind the cut the filler is passed over, and scanning goes on as it would have done without it.

## Main definitions

* `Filler`: texts that may be put between tokens;
* `Cut`: sources cut in two between matches.

## Main results

* `firstMatch?_insert`: what a filler does to a match;
* `Scanner.bare_feed_insert`: a filler at a cut changes positions only;
* `Scanner.exists_cut_of_mem_feed`: tokens start and stop at cuts;
* `tokenize_insert`: a filler at the start or at the end of a token.
-/

namespace Scriptlet

open Text (byteLength)

/-! ### Fillers -/

/-- A text that may be put between tokens. It stands in one line. -/
inductive Filler : List Char → Prop
  /-- A run of blanks. -/
  | blanks {run : List Char} : run ≠ [] → (∀ c ∈ run, isBlank c = true) → Filler run
  /-- A comment that is closed by the first `*/` in it. -/
  | comment {body : List Char} : '\n' ∉ body → ¬ ['*', '/'] <:+: body ++ ['*'] →
      Filler ('/' :: '*' :: (body ++ ['*', '/']))

namespace Filler

variable {w : List Char}

theorem newline_not_mem (hw : Filler w) : '\n' ∉ w := by
  cases hw with
  | blanks _ hblank => exact fun hmem => absurd (hblank _ hmem) (by decide)
  | comment hline _ => simpa using hline

/-- A filler starts with a blank or with a slash. -/
theorem exists_head (hw : Filler w) : ∃ c ∈ [' ', '\t', '\r', '/'], ∃ more, w = c :: more := by
  cases hw with
  | blanks hne hblank =>
    obtain ⟨c, more, rfl⟩ := List.exists_cons_of_ne_nil hne
    have hc := hblank c List.mem_cons_self
    simp only [isBlank, Bool.or_eq_true, decide_eq_true_eq] at hc
    exact ⟨c, by simp; tauto, more, rfl⟩
  | comment => exact ⟨'/', by simp, _, rfl⟩

/-- What is true of the first character behind a place, and of blanks and slashes, is true of the
first character there when a filler is put in. -/
theorem head_insert (hw : Filler w) {P : Char → Prop} (hP : ∀ c ∈ [' ', '\t', '\r', '/'], P c)
    {front behind : List Char} (h : ∀ c ∈ (front ++ behind).head?, P c) :
    ∀ c ∈ (front ++ (w ++ behind)).head?, P c := by
  cases front with
  | nil =>
    obtain ⟨c, hc, more, rfl⟩ := hw.exists_head
    simpa using hP c hc
  | cons d front => simpa using h

/-- A dot and a digit that were not next to each other stay apart. -/
theorem noFraction_insert (hw : Filler w) {front behind : List Char}
    (h : NoFraction (front ++ behind)) : NoFraction (front ++ (w ++ behind)) := by
  intro more heq
  cases front with
  | nil =>
    obtain ⟨c, hc, more, rfl⟩ := hw.exists_head
    obtain ⟨rfl, -⟩ := List.cons.inj heq
    exact absurd hc (by decide)
  | cons d front =>
    obtain ⟨rfl, rfl⟩ := List.cons.inj heq
    exact hw.head_insert (List.all_iff_forall_prop.1 (by decide)) (h _ rfl)

end Filler

/-! ### Matches in front of a filler -/

/-- The patterns that take a filler behind their text into it. -/
inductive Swallows (w : List Char) : Pattern → Prop
  | blanks : (∀ c ∈ w, isBlank c = true) → Swallows w .blanks
  | lineBreaks : (∀ c ∈ w, isBlank c = true) → Swallows w .lineBreaks
  | lineComment : Swallows w .lineComment

section Match

variable {p : Pattern} {text w front behind : List Char}

/-- What may stand behind a text may stand there with a filler put in, unless the filler is right
behind the text and the pattern takes it too. -/
theorem Pattern.stops_insert (hw : Filler w) (h : p.Stops text (front ++ behind)) :
    p.Stops text (front ++ (w ++ behind)) ∨ (front = [] ∧ Swallows w p) := by
  -- A comment right behind a run of blanks or line ends ends it, blanks do not.
  have hrun : ∀ more : Char → Bool, more '/' = false →
      (∀ c ∈ (front ++ behind).head?, more c = false) →
      (∀ c ∈ (front ++ (w ++ behind)).head?, more c = false) ∨
        (front = [] ∧ ∀ c ∈ w, isBlank c = true) := by
    intro more hslash hstop
    cases front with
    | nil =>
      cases hw with
      | blanks _ hblank => exact .inr ⟨rfl, hblank⟩
      | comment => exact .inl (by simpa using hslash)
    | cons d front => exact .inl (by simpa using hstop)
  cases p with
  | blanks => exact (hrun isBlank rfl h).imp_right fun ⟨hnil, hblank⟩ => ⟨hnil, .blanks hblank⟩
  | lineBreaks =>
    exact (hrun isLayout rfl h).imp_right fun ⟨hnil, hblank⟩ => ⟨hnil, .lineBreaks hblank⟩
  | lineComment =>
    cases front with
    | nil => exact .inr ⟨rfl, .lineComment⟩
    | cons d front => exact .inl (by simpa [Stops] using h)
  | word => exact .inl (hw.head_insert (List.all_iff_forall_prop.1 (by decide)) h)
  | number =>
    exact .inl ⟨hw.head_insert (List.all_iff_forall_prop.1 (by decide)) h.1,
      h.2.imp_right hw.noFraction_insert⟩
  | blockComment | quoted mark | fixed kind word => exact .inl trivial

/-- A pattern that takes the filler takes nothing else. -/
theorem Pattern.split?_of_swallows (hw : Filler w) {cs : List Char}
    (h : p.split? cs = some (text, behind)) (hs : Swallows w p) :
    p.split? (text ++ (w ++ behind)) = some (text ++ w, behind) := by
  rw [← List.append_assoc]
  cases hs with
  | blanks hblank =>
    rw [split?, takeRun?_eq_some_iff] at h ⊢
    obtain ⟨-, ⟨c, run, rfl, hc, hrun⟩, hstop⟩ := h
    exact ⟨rfl, ⟨c, run ++ w, rfl, hc, List.forall_mem_append.2 ⟨hrun, hblank⟩⟩, hstop⟩
  | lineBreaks hblank =>
    have hlayout : ∀ d ∈ w, isLayout d = true := fun d hd => by simp [isLayout, hblank d hd]
    rw [split?, takeRun?_eq_some_iff] at h ⊢
    obtain ⟨-, ⟨c, run, rfl, hc, hrun⟩, hstop⟩ := h
    exact ⟨rfl, ⟨c, run ++ w, rfl, hc, List.forall_mem_append.2 ⟨hrun, hlayout⟩⟩, hstop⟩
  | lineComment =>
    obtain ⟨line, rfl, hline, hstop⟩ := takeLineComment?_eq_some h
    have hboth : '\n' ∉ line ++ w := by simp [hline, hw.newline_not_mem]
    exact takeLineComment?_of_stops hboth hstop

theorem Swallows.token?_append (hs : Swallows w p) (last : Option Kind) :
    p.token? last (text ++ w) = p.token? last text := by
  cases hs <;> rfl

/-- A match stays what it is when a filler is put in behind it, unless it takes the filler too. -/
theorem firstMatch?_insert (hw : Filler w)
    (hit : firstMatch? (text ++ (front ++ behind)) = some (p, text, front ++ behind)) :
    firstMatch? (text ++ (front ++ (w ++ behind))) = some (p, text, front ++ (w ++ behind)) ∨
    (front = [] ∧ Swallows w p ∧
      firstMatch? (text ++ (w ++ behind)) = some (p, text ++ w, behind)) := by
  obtain ⟨hp, hsplit, hsign⟩ := firstMatch?_eq_some_iff.1 hit
  rcases Pattern.stops_insert hw (Pattern.stops_of_split? hsplit) with hstops | ⟨rfl, hs⟩
  · left
    refine firstMatch?_eq_some_iff.2 ⟨hp, Pattern.split?_of_stops hp hsplit hstops, ?_⟩
    -- A sign is not moved in front of an equals sign.
    intro htext hhead
    have hne : ∀ c ∈ (front ++ behind).head?, c ≠ '=' := by
      rintro c hc rfl
      exact hsign htext hc
    exact hw.head_insert (List.all_iff_forall_prop.1 (by decide)) hne '=' hhead rfl
  · right
    refine ⟨rfl, hs, firstMatch?_eq_some_iff.2
      ⟨hp, Pattern.split?_of_swallows hw hsplit hs, fun htext => ?_⟩⟩
    -- A text that has taken a filler is no sign.
    obtain ⟨c, more, rfl, -⟩ := Pattern.exists_starts_of_split? hp hsplit
    obtain ⟨d, -, more', rfl⟩ := hw.exists_head
    simp at htext

end Match

/-! ### Cuts -/

/-- A source is cut in two between matches of the table. -/
inductive Cut : List Char → List Char → Prop
  | nil {behind : List Char} : Cut [] behind
  | cons {p : Pattern} {text front behind : List Char} :
      firstMatch? (text ++ (front ++ behind)) = some (p, text, front ++ behind) →
      Cut front behind → Cut (text ++ front) behind

namespace Scanner

/-- Every token starts at a cut and stops at one. -/
theorem exists_cut_of_mem_feed {s : Scanner} (hf : s.finished = false) {t : Token}
    (ht : t ∈ s.feed.tokens) {b : Position} (hb : b = t.span.start ∨ b = t.span.stop) :
    ∃ front behind, s.rest = front ++ behind ∧ Cut front behind ∧
      b = .of s.file (s.offset + byteLength front) := by
  induction s using induction_on_rest with
  | stop s hrest =>
    rw [feed_of_rest_eq_nil hrest hf] at ht
    split at ht
    · cases ht
    · obtain rfl := List.mem_singleton.1 ht
      exact ⟨[], [], hrest, .nil, by rcases hb with rfl | rfl <;> rfl⟩
  | stuck s c cs hrest hit =>
    rw [feed_of_firstMatch?_eq_none hrest hit] at ht
    cases ht
  | step s p text rest hit ih =>
    obtain ⟨-, -, happend, -⟩ := firstMatch?_eq_some hit
    -- A cut behind the match is a cut of the whole.
    have hbehind : ∀ last, t ∈ ((s.skip text rest).behind last).feed.tokens →
        ∃ front behind, s.rest = front ++ behind ∧ Cut front behind ∧
          b = .of s.file (s.offset + byteLength front) := by
      intro last ht
      obtain ⟨front, behind, hrest, hcut, hb⟩ := ih last hf ht
      replace hrest : rest = front ++ behind := hrest
      subst hrest
      rw [happend] at hit
      refine ⟨text ++ front, behind, by rw [happend, List.append_assoc], .cons hit hcut, ?_⟩
      rw [hb, Text.byteLength_append, ← Nat.add_assoc]
      rfl
    cases htoken : p.token? s.lastKind text with
    | none =>
      rw [feed_of_token?_eq_none hit htoken] at ht
      exact hbehind s.lastKind ht
    | some found =>
      obtain ⟨kind, value⟩ := found
      rw [feed_of_token?_eq_some hit htoken] at ht
      rcases List.mem_cons.1 ht with rfl | ht
      · rcases hb with rfl | rfl
        · exact ⟨[], s.rest, rfl, .nil, rfl⟩
        · rw [happend] at hit
          have hcut : Cut (text ++ []) rest := .cons hit .nil
          rw [List.append_nil] at hcut
          exact ⟨text, rest, happend, hcut, rfl⟩
      · exact hbehind (some kind) ht

/-! ### Scanning with a filler put in -/

/-- Blanks at the front are passed over. -/
theorem feed_blanks (s : Scanner) :
    s.feed = (s.skip (s.rest.takeWhile isBlank) (s.rest.dropWhile isBlank)).feed := by
  have hskip : s.skip [] s.rest = s := rfl
  cases hrest : s.rest with
  | nil =>
    rw [hrest] at hskip
    rw [List.takeWhile_nil, List.dropWhile_nil, hskip]
  | cons c cs =>
    by_cases hc : isBlank c = true
    · rw [feed_of_token?_eq_none (hrest ▸ firstMatch?_blank hc cs) rfl,
        List.takeWhile_cons_of_pos hc, List.dropWhile_cons_of_pos hc]
    · rw [List.takeWhile_cons_of_neg hc, List.dropWhile_cons_of_neg hc, ← hrest, hskip]

/-- A filler is passed over. -/
theorem feed_filler {s : Scanner} {w behind : List Char} (hw : Filler w)
    (hrest : s.rest = w ++ behind) : s.feed = (s.skip w behind).feed := by
  cases hw with
  | blanks _ hblank =>
    rw [feed_blanks, feed_blanks (s.skip w behind), hrest,
      List.takeWhile_append_of_pos hblank, List.dropWhile_append_of_pos hblank]
    simp [skip, Nat.add_assoc]
  | comment _ hbody =>
    refine feed_of_token?_eq_none (p := .blockComment) ?_ rfl
    rw [hrest, firstMatch?_eq_some_iff]
    exact ⟨by decide, takeBlockComment?_append_close hbody behind, by simp⟩

/-- The scanner with another text to be read. -/
def reading (rest : List Char) (s : Scanner) : Scanner := { s with rest := rest }

/-- Further behind there is the same to come, but for positions. -/
theorem bare_feed_shifted (bytes : Nat) {s : Scanner} (hf : s.finished = false) :
    bare (s.shifted bytes).feed = bare s.feed := by
  rw [feed_shifted bytes hf]
  simp only [bare, relocate_feed, Feed.mk.injEq]
  constructor
  · simp [relocate, Function.comp_def, forget]
  · simp [relocate, Function.comp_def, forget]

/-- Matches of one pattern that stand for the same token, or for none, give the same but for
positions, if what stands behind them does. -/
theorem bare_feed_of_firstMatch? {s s' : Scanner} {p : Pattern} {text text' rest rest' : List Char}
    (hlast : s'.lastKind = s.lastKind) (hit : firstMatch? s.rest = some (p, text, rest))
    (hit' : firstMatch? s'.rest = some (p, text', rest'))
    (htext : p.token? s.lastKind text' = p.token? s.lastKind text)
    (hbehind : ∀ last, bare ((s'.skip text' rest').behind last).feed =
      bare ((s.skip text rest).behind last).feed) : bare s'.feed = bare s.feed := by
  cases htoken : p.token? s.lastKind text with
  | none =>
    rw [feed_of_token?_eq_none hit htoken,
      feed_of_token?_eq_none hit' (by rw [hlast, htext, htoken])]
    have hself : (s'.skip text' rest').behind s.lastKind = s'.skip text' rest' := by
      rw [← hlast]
      rfl
    exact hself ▸ hbehind s.lastKind
  | some found =>
    obtain ⟨kind, value⟩ := found
    rw [feed_of_token?_eq_some hit htoken,
      feed_of_token?_eq_some hit' (by rw [hlast, htext, htoken])]
    obtain ⟨htokens, hfault⟩ := Feed.mk.inj (hbehind (some kind))
    simp only [bare, relocate_feed, relocate_cons, Feed.mk.injEq]
    exact ⟨List.cons_eq_cons.2 ⟨rfl, htokens⟩, hfault⟩

/-- A filler at a cut changes nothing but positions. -/
theorem bare_feed_insert {w front behind : List Char} (hw : Filler w) (hcut : Cut front behind)
    {s : Scanner} (hf : s.finished = false) (hrest : s.rest = front ++ behind) :
    bare (s.reading (front ++ (w ++ behind))).feed = bare s.feed := by
  induction hcut generalizing s with
  | @nil behind =>
    have hskip : (s.reading (w ++ behind)).skip w behind = s.shifted (byteLength w) := by
      obtain ⟨file, offset, _, last, finished⟩ := s
      cases hrest
      rfl
    rw [List.nil_append, feed_filler (s := s.reading (w ++ behind)) hw rfl, hskip,
      bare_feed_shifted _ hf]
  | @cons p text front behind hit _ ih =>
    rw [List.append_assoc] at hrest ⊢
    have hs : firstMatch? s.rest = some (p, text, front ++ behind) := by rw [hrest, hit]
    rcases firstMatch?_insert hw hit with hit' | ⟨rfl, hswallows, hit'⟩
    · -- The match stays, and the filler is behind it.
      exact bare_feed_of_firstMatch? rfl hs hit' rfl fun last =>
        ih (s := (s.skip text (front ++ behind)).behind last) hf rfl
    · -- The match takes the filler, and one scanner goes on behind the other.
      refine bare_feed_of_firstMatch? rfl hs hit' (hswallows.token?_append _) fun last => ?_
      rw [← bare_feed_shifted (byteLength w) hf (s := (s.skip text ([] ++ behind)).behind last)]
      simp [shifted, skip, reading, Scanner.behind, Nat.add_assoc]

end Scanner

/-! ### Sources -/

/-- Things that are the same but for positions have tokens of the same kinds and texts. -/
theorem map_eq_of_bare_eq {ts us : List Token} (h : bare ts = bare us) :
    ts.map (fun t => (t.kind, t.value)) = us.map fun u => (u.kind, u.value) := by
  have hbare (ts : List Token) : (bare ts).map (fun t => (t.kind, t.value)) =
      ts.map fun t => (t.kind, t.value) := by
    rw [bare, relocate, instRelocatableList, List.map_map]
    rfl
  rw [← hbare ts, h, hbare us]

/-- A source stays tokenizable when a filler is put in at the start or at the end of one of its
tokens, and the kinds and the texts of all tokens stay. This is so at the end of the source too,
where the line break that ends it may have an empty span. -/
theorem tokenize_insert {source : String} {file : Option String} {ts : List Token}
    (h : tokenize source file = .ok ts) {t : Token} (ht : t ∈ ts) {b : Position}
    (hb : b = t.span.start ∨ b = t.span.stop) {w : List Char} (hw : Filler w)
    (hsize : byteLength source.toList + byteLength w < UInt32.size) :
    ∃ front behind us, source.toList = front ++ behind ∧ byteLength front = b.offset.toNat ∧
      tokenize (String.ofList (front ++ w ++ behind)) file = .ok us ∧
      us.map (fun u => (u.kind, u.value)) = ts.map fun t => (t.kind, t.value) := by
  rw [tokenize_eq_ok_iff] at h
  have ht' : t ∈ (Scanner.ofSource (file.getD defaultLabel) source).feed.tokens := by rwa [h]
  obtain ⟨front, behind, happend, hcut, rfl⟩ := Scanner.exists_cut_of_mem_feed rfl ht' hb
  replace happend : source.toList = front ++ behind := happend
  have hbare := Scanner.bare_feed_insert hw hcut
    (s := Scanner.ofSource (file.getD defaultLabel) source) rfl happend
  have hsource : (Scanner.ofSource (file.getD defaultLabel) source).reading
      (front ++ (w ++ behind)) = Scanner.ofSource (file.getD defaultLabel)
        (String.ofList (front ++ w ++ behind)) := by
    rw [Scanner.ofSource, Scanner.ofSource, String.toList_ofList, List.append_assoc]
    rfl
  rw [hsource, h] at hbare
  cases hus : (Scanner.ofSource (file.getD defaultLabel)
      (String.ofList (front ++ w ++ behind))).feed with
  | mk us fault =>
    rw [hus] at hbare
    obtain ⟨htokens, hfault⟩ := Feed.mk.inj hbare
    obtain rfl : fault = none := by
      cases fault with
      | none => rfl
      | some e => cases hfault
    have hlength : byteLength front < UInt32.size := by
      rw [happend, Text.byteLength_append] at hsize
      omega
    refine ⟨front, behind, us, happend, ?_, tokenize_eq_ok_iff.2 hus, map_eq_of_bare_eq htokens⟩
    simp [Scanner.ofSource, Position.toNat_offset_of _ hlength]

/-- A comment put in behind another one, which goes on to the end of the line. -/
theorem tokenize_insert_in_comment :
    tokenize "1... // é\n" none =
      .ok [⟨.number, "1", .of defaultLabel 0 1⟩, ⟨.spread, "...", .of defaultLabel 1 3⟩,
        ⟨.lineBreak, "\n", .of defaultLabel 10 1⟩] ∧
    Filler "/* ü */".toList ∧
    byteLength "1... // é\n".toList + byteLength "/* ü */".toList < UInt32.size ∧
    ∃ us, tokenize "1... // é/* ü */\n" none = .ok us ∧
      us.map (fun u => (u.kind, u.value)) =
        [(.number, "1"), (.spread, "..."), (.lineBreak, "\n")] := by
  have htokens : tokenize "1... // é\n" none =
      .ok [⟨.number, "1", .of defaultLabel 0 1⟩, ⟨.spread, "...", .of defaultLabel 1 3⟩,
        ⟨.lineBreak, "\n", .of defaultLabel 10 1⟩] := by
    decide +kernel
  have hw : Filler "/* ü */".toList := @Filler.comment " ü ".toList (by decide) (by decide)
  have hsize : byteLength "1... // é\n".toList + byteLength "/* ü */".toList < UInt32.size := by
    decide +kernel
  obtain ⟨front, behind, us, happend, hlength, hus, hsame⟩ :=
    tokenize_insert htokens (t := ⟨.lineBreak, "\n", .of defaultLabel 10 1⟩) (by simp)
      (.inl rfl) hw hsize
  -- The cut is in front of the newline.
  obtain rfl : behind = ['\n'] := by
    have hdrop := Text.dropBytes?_byteLength_append front behind
    rw [hlength, ← happend] at hdrop
    exact (Option.some.inj (hdrop.symm.trans (by decide +kernel)))
  obtain rfl : front = "1... // é".toList :=
    List.append_cancel_right (happend.symm.trans (by decide +kernel))
  exact ⟨htokens, hw, hsize, us, hus, hsame⟩

end Scriptlet
