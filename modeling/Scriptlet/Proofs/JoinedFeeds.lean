import Scriptlet.Proofs.Blindness
import Scriptlet.Proofs.Locality
import Scriptlet.Proofs.Opening

/-!
# Tokens of joined sources

Two sources with a newline between them are scanned like each of them by itself, but for the joint.
The newline ends the first source: a comment on its last line ends there, and where its end would
have given a line break the newline gives one that starts at the same place. If the first source
ends in a line break already, that one goes on through the newline. Either way blanks and empty
lines at the front of the second source are part of the joint, and a line break that the second
source would have started with is not given again.

So the tokens of the joined sources are those of the first one, its last line break being longer,
and behind them those of the second one, further behind by the length of the first source and the
newline.

## Main definitions

* `Scanner.followed`, `Scanner.beyond`: a scanner whose source goes on, and the scanner there;
* `Joint`: feeds that meet in a line break.

## Main results

* `Scanner.feed_shifted`: scanning further behind;
* `streamOf_append_newline`: the tokens of joined sources.
-/

namespace Scriptlet

open Text (byteLength)

/-! ### Scanning further behind -/

instance : Relocatable Feed := ⟨fun φ feed => ⟨relocate φ feed.tokens, relocate φ feed.fault⟩⟩

theorem relocate_feed (φ : Position → Position) (feed : Feed) :
    relocate φ feed = ⟨relocate φ feed.tokens, relocate φ feed.fault⟩ := rfl

theorem relocate_spanOf (bytes : Nat) (file : String) (offset length : Nat) :
    relocate (shiftBy bytes) (Span.of file offset length) =
      .of file (offset + bytes) length := by
  rw [Span.of, relocate_span, shiftBy_of, shiftBy_of, Nat.add_right_comm]
  rfl

namespace Scanner

/-- The scanner with its text further behind. -/
def shifted (bytes : Nat) (s : Scanner) : Scanner := { s with offset := s.offset + bytes }

/-- The same text further behind gives the same tokens further behind. -/
theorem feed_shifted (bytes : Nat) {s : Scanner} (hf : s.finished = false) :
    (s.shifted bytes).feed = relocate (shiftBy bytes) s.feed := by
  induction s using induction_on_rest with
  | stop s hrest =>
    rw [feed_of_rest_eq_nil (s := s.shifted bytes) hrest hf, feed_of_rest_eq_nil hrest hf]
    rw [relocate_feed]
    split <;> simp_all [shifted, relocate_spanOf]
  | stuck s c cs hrest hit =>
    rw [feed_of_firstMatch?_eq_none (s := s.shifted bytes) hrest hit,
      feed_of_firstMatch?_eq_none hrest hit]
    simp [relocate_feed, position, shifted, shiftBy_of]
  | step s p text rest hit ih =>
    -- Both scanners stand behind the match, the one further behind than the other.
    have hskip : ∀ last, ((s.shifted bytes).skip text rest).behind last =
        ((s.skip text rest).behind last).shifted bytes := by
      intro last
      simp [shifted, skip, behind, Nat.add_right_comm]
    cases htoken : p.token? s.lastKind text with
    | none =>
      rw [feed_of_token?_eq_none (s := s.shifted bytes) hit htoken,
        feed_of_token?_eq_none hit htoken]
      exact (congrArg feed (hskip s.lastKind)).trans (ih s.lastKind hf)
    | some found =>
      obtain ⟨kind, value⟩ := found
      rw [feed_of_token?_eq_some (s := s.shifted bytes) hit htoken,
        feed_of_token?_eq_some hit htoken, hskip, ih _ hf]
      simp [relocate_feed, relocate_spanOf, shifted]

/-! ### Scanning behind a line break -/

/-- Behind a line break a scanner gives what it gives anyway, but for a line break that comes
first. -/
theorem feed_behind_lineBreak {s : Scanner} (hf : s.finished = false) :
    ∃ d, (d = [] ∨ ∃ t, t.kind = .lineBreak ∧ d = [t]) ∧
      s.feed = ⟨d ++ (s.behind (some .lineBreak)).feed.tokens,
        (s.behind (some .lineBreak)).feed.fault⟩ := by
  induction s using induction_on_rest with
  | stop s hrest =>
    rw [feed_of_rest_eq_nil hrest hf,
      feed_of_rest_eq_nil (s := s.behind (some .lineBreak)) hrest hf]
    split
    · exact ⟨[], .inl rfl, rfl⟩
    · exact ⟨_, .inr ⟨_, rfl, rfl⟩, rfl⟩
  | stuck s c cs hrest hit =>
    rw [feed_of_firstMatch?_eq_none hrest hit,
      feed_of_firstMatch?_eq_none (s := s.behind (some .lineBreak)) hrest hit]
    exact ⟨[], .inl rfl, rfl⟩
  | step s p text rest hit ih =>
    -- Behind a line break already, nothing is changed. Otherwise only a run of line breaks is read
    -- in another way, and it comes first if it comes at all.
    by_cases hl : s.lastKind = some .lineBreak
    · rw [show s.behind (some .lineBreak) = s by rw [← hl]; rfl]
      exact ⟨[], .inl rfl, rfl⟩
    by_cases hp : p = .lineBreaks
    · subst hp
      rw [feed_of_token?_eq_none (s := s.behind (some .lineBreak)) hit
          (Pattern.token?_lineBreaks text),
        feed_of_token?_eq_some hit (Pattern.token?_lineBreaks_of_ne hl text)]
      exact ⟨_, .inr ⟨_, rfl, rfl⟩, rfl⟩
    · have hlast := Pattern.token?_eq_of_ne hp s.lastKind (some .lineBreak) text
      cases htoken : p.token? s.lastKind text with
      | none =>
        rw [feed_of_token?_eq_none (s := s.behind (some .lineBreak)) hit (hlast.symm.trans htoken),
          feed_of_token?_eq_none hit htoken]
        exact ih s.lastKind hf
      | some found =>
        obtain ⟨kind, value⟩ := found
        rw [feed_of_token?_eq_some (s := s.behind (some .lineBreak)) hit (hlast.symm.trans htoken),
          feed_of_token?_eq_some hit htoken]
        exact ⟨[], .inl rfl, rfl⟩

/-- Behind a line break blanks and empty lines are passed over. -/
theorem feed_layout {s : Scanner} (hl : s.lastKind = some .lineBreak) :
    s.feed = (s.skip (s.rest.takeWhile isLayout) (s.rest.dropWhile isLayout)).feed := by
  induction hn : s.rest.length using Nat.strongRecOn generalizing s with
  | ind n ih =>
    have hskip : s.skip [] s.rest = s := rfl
    cases hrest : s.rest with
    | nil =>
      rw [hrest] at hskip
      rw [List.takeWhile_nil, List.dropWhile_nil, hskip]
    | cons c cs =>
      -- A run of line breaks is one match that takes all that is passed over, and stands for no
      -- token.
      by_cases hnewline : c = '\n'
      · subst hnewline
        refine feed_of_token?_eq_none (hrest ▸ firstMatch?_newline cs) ?_
        rw [hl, Pattern.token?_lineBreaks]
      by_cases hblank : isBlank c = true
      · -- The blanks are one match, and what is behind them is shorter.
        have hlength : (cs.dropWhile isBlank).length < n := by
          have hle := (List.dropWhile_suffix isBlank (l := cs)).length_le
          rw [← hn, hrest, List.length_cons]
          omega
        have hall : ∀ d ∈ c :: cs.takeWhile isBlank, isLayout d = true := by
          intro d hd
          have hblank' : isBlank d = true := by
            rcases List.mem_cons.1 hd with rfl | hd
            · exact hblank
            · exact List.all_eq_true.1 List.all_takeWhile d hd
          simp [isLayout, hblank']
        have happend : c :: cs = (c :: cs.takeWhile isBlank) ++ cs.dropWhile isBlank := by
          rw [List.cons_append, List.takeWhile_append_dropWhile]
        rw [feed_of_token?_eq_none (hrest ▸ firstMatch?_blank hblank cs) rfl,
          ih _ hlength (s := s.skip _ _) hl rfl, happend, List.takeWhile_append_of_pos hall,
          List.dropWhile_append_of_pos hall]
        simp [skip, Nat.add_assoc]
      · have hc : ¬isLayout c = true := by simp [isLayout, hnewline, hblank]
        rw [List.takeWhile_cons_of_neg hc, List.dropWhile_cons_of_neg hc, ← hrest, hskip]

/-! ### The joint -/

/-- The scanner with a newline and more text behind its text. -/
def followed (v : List Char) (s : Scanner) : Scanner := { s with rest := s.rest ++ '\n' :: v }

/-- The scanner in front of that text, behind a line break. -/
def beyond (v : List Char) (s : Scanner) : Scanner :=
  ⟨s.file, s.offset + byteLength s.rest + 1, v, some .lineBreak, false⟩

/-- Behind the run of line breaks that the newline belongs to. -/
theorem feed_of_landing {s s' : Scanner} {v : List Char} (hfile : s'.file = s.file)
    (hoffset : s'.offset = s.offset + byteLength s.rest + 1 + byteLength (v.takeWhile isLayout))
    (hrest : s'.rest = v.dropWhile isLayout) (hl : s'.lastKind = some .lineBreak)
    (hf : s'.finished = false) : s'.feed = (s.beyond v).feed := by
  rw [feed_layout (s := s.beyond v) rfl]
  obtain ⟨file, offset, rest, last, finished⟩ := s'
  cases hfile; cases hoffset; cases hrest; cases hl; cases hf
  rfl

end Scanner

/-- Tokens end in a line break, and in the joint feed they stand in front of another feed, but that
the line break may be longer. -/
def Joint (ts : List Token) (back joint : Feed) : Prop :=
  ∃ c b b', ts = c ++ [b] ∧ b.kind = .lineBreak ∧ Faces id id b b' ∧
    joint = ⟨c ++ b' :: back.tokens, back.fault⟩

/-- The sources meet in the last token of the first one. -/
theorem Joint.lineBreak {b b' : Token} (back : Feed) (hb : b.kind = .lineBreak)
    (hface : Faces id id b b') : Joint [b] back ⟨b' :: back.tokens, back.fault⟩ :=
  ⟨[], b, b', rfl, hb, hface, rfl⟩

/-- A token in front of both. -/
theorem Joint.cons {ts us : List Token} {f : Option Error} {back : Feed} (t : Token)
    (h : Joint ts back ⟨us, f⟩) : Joint (t :: ts) back ⟨t :: us, f⟩ := by
  obtain ⟨c, b, b', rfl, hb, hface, hjoint⟩ := h
  cases hjoint
  exact ⟨t :: c, b, b', rfl, hb, hface, rfl⟩

namespace Scanner

/-- The rest of a source is a run of line breaks, or empty: the run goes on through the newline. -/
theorem feed_followed_of_run {s : Scanner} {v : List Char} (hf : s.finished = false)
    (hs : s.feed = ⟨if s.lastKind = some .lineBreak then [] else
      [⟨.lineBreak, "\n", .of s.file s.offset (byteLength s.rest)⟩], none⟩)
    (hit : firstMatch? (s.followed v).rest = some (.lineBreaks,
      s.rest ++ '\n' :: v.takeWhile isLayout, v.dropWhile isLayout)) :
    (s.lastKind = some .lineBreak ∧ s.feed.tokens = [] ∧
      (s.followed v).feed = (s.beyond v).feed) ∨
    Joint s.feed.tokens (s.beyond v).feed (s.followed v).feed := by
  have hoffset : s.offset + byteLength (s.rest ++ '\n' :: v.takeWhile isLayout) =
      s.offset + byteLength s.rest + 1 + byteLength (v.takeWhile isLayout) := by
    rw [Text.byteLength_append, Text.byteLength_cons, show '\n'.utf8Size = 1 from rfl]
    omega
  by_cases hl : s.lastKind = some .lineBreak
  · left
    refine ⟨hl, by rw [hs, if_pos hl], ?_⟩
    rw [feed_of_token?_eq_none (s := s.followed v) hit (if_pos hl)]
    exact feed_of_landing rfl hoffset rfl hl hf
  · right
    have hlanding : (((s.followed v).skip (s.rest ++ '\n' :: v.takeWhile isLayout)
        (v.dropWhile isLayout)).behind (some .lineBreak)).feed = (s.beyond v).feed :=
      feed_of_landing rfl hoffset rfl rfl hf
    rw [hs, if_neg hl, feed_of_token?_eq_some (s := s.followed v) hit
      (Pattern.token?_lineBreaks_of_ne hl _), hlanding]
    exact .lineBreak _ rfl ⟨rfl, rfl, rfl⟩

/-- A scanner that reads its source to the end goes on behind it, if it has given a line break or
gives one yet. -/
theorem feed_followed {s : Scanner} (hf : s.finished = false) (hfault : s.feed.fault = none)
    (v : List Char) :
    (s.lastKind = some .lineBreak ∧ s.feed.tokens = [] ∧
      (s.followed v).feed = (s.beyond v).feed) ∨
    Joint s.feed.tokens (s.beyond v).feed (s.followed v).feed := by
  induction s using induction_on_rest with
  | stop s hrest =>
    refine feed_followed_of_run hf ?_ ?_
    · rw [feed_of_rest_eq_nil hrest hf, hrest]
      rfl
    · rw [followed, hrest]
      exact firstMatch?_newline v
  | stuck s c cs hrest hit =>
    rw [feed_of_firstMatch?_eq_none hrest hit] at hfault
    cases hfault
  | step s p text rest hit ih =>
    obtain ⟨-, -, happend, -⟩ := firstMatch?_eq_some hit
    rcases firstMatch?_append_newline v hit with hit' | ⟨rfl, rfl, hit'⟩
    · -- The match stays, and both scanners go on behind it.
      have hbeyond : ∀ last, ((s.skip text rest).behind last).beyond v = s.beyond v := by
        intro last
        simp [beyond, skip, behind, happend, Nat.add_assoc]
      cases htoken : p.token? s.lastKind text with
      | none =>
        have hfeed := feed_of_token?_eq_none hit htoken
        rw [hfeed] at hfault
        have hcases := ih s.lastKind hf hfault
        rw [hbeyond] at hcases
        rwa [hfeed, feed_of_token?_eq_none (s := s.followed v) hit' htoken]
      | some found =>
        obtain ⟨kind, value⟩ := found
        have hfeed := feed_of_token?_eq_some hit htoken
        rw [hfeed] at hfault
        have hcases := ih (some kind) hf hfault
        rw [hbeyond] at hcases
        rw [hfeed, feed_of_token?_eq_some (s := s.followed v) hit' htoken]
        right
        -- If the token is a line break with nothing behind it, it is the one in which the sources
        -- meet.
        rcases hcases with ⟨hkind, hnil, hfollowed⟩ | hjoint
        · have hlanding : (((s.followed v).skip text (rest ++ '\n' :: v)).behind (some kind)).feed =
              (s.beyond v).feed := hfollowed
          rw [hnil, hlanding]
          exact .lineBreak _ (Option.some.inj hkind) ⟨rfl, rfl, rfl⟩
        · exact hjoint.cons _
    · rw [List.append_nil] at happend
      subst happend
      refine feed_followed_of_run hf ?_ hit'
      by_cases hl : s.lastKind = some .lineBreak
      · rw [feed_of_token?_eq_none hit (if_pos hl),
          feed_of_rest_eq_nil (s := s.skip s.rest []) rfl hf, if_pos hl,
          if_pos (show (s.skip s.rest []).lastKind = _ from hl)]
      · have hnil := feed_of_rest_eq_nil (s := (s.skip s.rest []).behind (some .lineBreak)) rfl hf
        rw [feed_of_token?_eq_some hit (Pattern.token?_lineBreaks_of_ne hl _), hnil, if_neg hl]
        rfl

end Scanner

/-- The tokens of two sources with a newline between them: those of the first one up to its last
line break, a line break at the same place, and those of the second one further behind, without a
line break that comes first. -/
theorem streamOf_append_newline {u v : String} {file : Option String} {ts : List Token}
    (hu : streamOf u file = ⟨ts, none⟩) :
    ∃ d back, (d = [] ∨ ∃ t, t.kind = .lineBreak ∧ d = [t]) ∧
      streamOf v file = ⟨d ++ back.tokens, back.fault⟩ ∧
      Joint ts (relocate (shiftBy (byteLength u.toList + 1)) back)
        (streamOf (u ++ "\n" ++ v) file) := by
  obtain ⟨d, hd, hback⟩ := Scanner.feed_behind_lineBreak
    (s := Scanner.ofSource (file.getD defaultLabel) v) rfl
  refine ⟨d, _, hd, hback, ?_⟩
  have hfollowed : Scanner.ofSource (file.getD defaultLabel) (u ++ "\n" ++ v) =
      (Scanner.ofSource (file.getD defaultLabel) u).followed v.toList := by
    simp [Scanner.ofSource, Scanner.followed]
  have hbeyond : (Scanner.ofSource (file.getD defaultLabel) u).beyond v.toList =
      ((Scanner.ofSource (file.getD defaultLabel) v).behind (some .lineBreak)).shifted
        (byteLength u.toList + 1) := by
    simp [Scanner.ofSource, Scanner.beyond, Scanner.behind, Scanner.shifted]
  rw [streamOf] at hu
  rw [streamOf, hfollowed, ← Scanner.feed_shifted _ rfl, ← hbeyond]
  -- At the front of a source no line break has been read.
  rcases Scanner.feed_followed (s := Scanner.ofSource (file.getD defaultLabel) u) rfl (by rw [hu])
    v.toList with ⟨hkind, -⟩ | hjoint
  · cases hkind
  · rwa [hu] at hjoint

end Scriptlet
