/-
# The meaning of a balanced source

A segment means the texts that come of one choice in each of its groups, the
leftmost group varying slowest; the segments of a selection mean their texts one
after the other. `meaning` reads this off the tokens from left to right, with a
frame for each group that is open, and gives nothing where brackets do not balance.

Every pass keeps the meaning (`meaning_settle`): it copies a trail behind each
alternative of a group, which is right only where the choices before the group are
one, as they are at the start of a segment. While a balanced list holds a bracket
there is a site in it (`any_isSite_of_mem`), and one without a bracket means its
pieces between delimiters (`meaning_of_free`). So a run that reads back ends in the
meaning of its source (`Seamless.ends_in_meaning`).

Key definitions: `Text.combine`, `Frame`, `meaning`, `Token.balanced`.
Key theorems: `meaning_settle`, `any_isSite_of_mem`, `Seamless.ends_in_meaning`.
-/
import FieldSelection.Proofs.Load
import FieldSelection.Selection

namespace FieldSelection

open Token

/-! ### One choice after another -/

namespace Text

/-- The texts of one list, each with each text of another behind it. The first list
varies slowest. -/
def combine (xs ys : List Text) : List Text := xs.flatMap fun x => ys.map (x ++ ·)

@[simp] theorem combine_nil_left (ys : List Text) : combine [] ys = [] := rfl

@[simp] theorem combine_cons (x : Text) (xs ys : List Text) :
    combine (x :: xs) ys = ys.map (x ++ ·) ++ combine xs ys := rfl

theorem combine_append (xs xs' ys : List Text) :
    combine (xs ++ xs') ys = combine xs ys ++ combine xs' ys := by
  simp [combine]

@[simp] theorem one_combine (ys : List Text) : combine [[]] ys = ys := by simp

@[simp] theorem combine_one (xs : List Text) : combine xs [[]] = xs := by
  induction xs with
  | nil => rfl
  | cons x xs ih => simp [ih]

theorem map_append_combine (x : Text) (ys zs : List Text) :
    (combine ys zs).map (x ++ ·) = combine (ys.map (x ++ ·)) zs := by
  induction ys with
  | nil => rfl
  | cons y ys ih => simp [ih]

theorem combine_assoc (xs ys zs : List Text) :
    combine (combine xs ys) zs = combine xs (combine ys zs) := by
  induction xs with
  | nil => rfl
  | cons x xs ih => rw [combine_cons, combine_append, ih, combine_cons, map_append_combine]

theorem length_combine (xs ys : List Text) :
    (combine xs ys).length = xs.length * ys.length := by
  induction xs with
  | nil => simp
  | cons x xs ih => rw [combine_cons, List.length_append, List.length_map, ih, List.length_cons,
      Nat.succ_mul, Nat.add_comm]

end Text

open Text (combine)

/-! ### Reading the meaning -/

/-- Where a reader of a selection stands: the texts of the segments that are read,
and those of the segment it is in, up to there. -/
structure Frame where
  settled : List Text
  growing : List Text

namespace Frame

/-- At the start of a selection. -/
def start : Frame := ⟨[], [[]]⟩

/-- The texts of the selection, if it ends here. -/
def all (f : Frame) : List Text := f.settled ++ f.growing

/-- A choice more in the segment. -/
def extend (f : Frame) (xs : List Text) : Frame := { f with growing := combine f.growing xs }

/-- The segment ends, and another begins. -/
def close (f : Frame) : Frame := ⟨f.all, [[]]⟩

theorem extend_extend (f : Frame) (xs ys : List Text) :
    (f.extend xs).extend ys = f.extend (combine xs ys) := by
  simp [extend, Text.combine_assoc]

@[simp] theorem extend_one (f : Frame) : f.extend [[]] = f := by
  simp [extend]

end Frame

/-- The texts that the rest of a selection means, read in a frame, the frames of the
groups around it being `outer`. -/
def meaningFrom (f : Frame) : (outer : List Frame) → List Token → Option (List Text)
  | [], [] => some f.all
  | _ :: _, [] => none
  | outer, .text s :: ts => meaningFrom (f.extend [s]) outer ts
  | outer, .mark .delimiter :: ts => meaningFrom f.close outer ts
  | outer, .mark .opener :: ts => meaningFrom .start (f :: outer) ts
  | g :: outer, .mark .closer :: ts => meaningFrom (g.extend f.all) outer ts
  | [], .mark .closer :: _ => none

/-- The texts that a token list means as a selection; nothing if its brackets do not
balance. -/
def meaning (ts : List Token) : Option (List Text) := meaningFrom .start [] ts

namespace Token

/-- Whether brackets balance, `depth` groups being open before the tokens. -/
def balanced : (depth : Nat) → List Token → Bool
  | depth, [] => depth == 0
  | depth, mark .opener :: ts => balanced (depth + 1) ts
  | depth + 1, mark .closer :: ts => balanced depth ts
  | 0, mark .closer :: _ => false
  | depth, mark .delimiter :: ts | depth, text _ :: ts => balanced depth ts

end Token

theorem isSome_meaningFrom : ∀ (f : Frame) (outer : List Frame) (ts : List Token),
    (meaningFrom f outer ts).isSome = balanced outer.length ts
  | _, [], [] => rfl
  | _, _ :: _, [] => rfl
  | f, outer, .text s :: ts => by rw [meaningFrom, isSome_meaningFrom, balanced]
  | f, outer, .mark .delimiter :: ts => by rw [meaningFrom, isSome_meaningFrom, balanced]
  | f, outer, .mark .opener :: ts => by
    rw [meaningFrom, isSome_meaningFrom, balanced, List.length_cons]
  | f, g :: outer, .mark .closer :: ts => by
    rw [meaningFrom, isSome_meaningFrom, List.length_cons, balanced]
  | _, [], .mark .closer :: _ => rfl

/-- **Just the balanced lists have a meaning.** -/
theorem isSome_meaning (ts : List Token) : (meaning ts).isSome = balanced 0 ts :=
  isSome_meaningFrom .start [] ts

/-! ### Tokens without brackets, and trails -/

/-- A frame behind tokens that are no brackets. -/
def Frame.read (f : Frame) : List Token → Frame
  | [] => f
  | .text s :: ts => (f.extend [s]).read ts
  | .mark .delimiter :: ts => f.close.read ts
  | .mark .opener :: ts | .mark .closer :: ts => f.read ts

theorem meaningFrom_free : ∀ {x : List Token}, (∀ t ∈ x, t.isBracket = false) →
    ∀ (f : Frame) (outer : List Frame) (ts : List Token),
    meaningFrom f outer (x ++ ts) = meaningFrom (f.read x) outer ts
  | [], _, _, _, _ => rfl
  | t :: x, h, f, outer, ts => by
    have hx : ∀ u ∈ x, u.isBracket = false := fun u hu => h u (List.mem_cons_of_mem _ hu)
    have ht := h t List.mem_cons_self
    rw [List.cons_append]
    match t, ht with
    | .text s, _ => rw [meaningFrom, meaningFrom_free hx, Frame.read]
    | .mark .delimiter, _ => rw [meaningFrom, meaningFrom_free hx, Frame.read]

section
variable (m : Markers)

theorem read_texts : ∀ {x : List Token}, (∀ t ∈ x, t.isText = true) → ∀ f : Frame,
    f.read x = f.extend [writeAll m x]
  | [], _, f => by rw [Frame.read, writeAll_nil, Frame.extend_one]
  | .mark k :: x, h, _ => by simpa [isText] using h (.mark k) List.mem_cons_self
  | .text s :: x, h, f => by
    rw [Frame.read, read_texts fun t ht => h t (List.mem_cons_of_mem _ ht), Frame.extend_extend]
    rfl

/-- Tokens without a bracket mean their pieces between delimiters. -/
theorem all_read : ∀ {x : List Token}, (∀ t ∈ x, t.isBracket = false) →
    ∀ (S : List Text) (u : Text),
    (Frame.read ⟨S, [u]⟩ x).all =
      S ++ ((x.splitOn (.mark .delimiter)).map (writeAll m)).modifyHead (u ++ ·)
  | [], _, S, u => by simp [Frame.read, Frame.all]
  | t :: x, h, S, u => by
    have hx : ∀ u ∈ x, u.isBracket = false := fun u hu => h u (List.mem_cons_of_mem _ hu)
    have ht := h t List.mem_cons_self
    obtain ⟨y, ys, hy⟩ := List.exists_cons_of_ne_nil (List.splitOn_ne_nil (.mark .delimiter) x)
    rw [List.splitOn_cons_eq_if_modifyHead]
    match t, ht with
    | .text s, _ =>
      have ih := all_read hx S (u ++ s)
      have hf : (Frame.mk S [u]).extend [s] = ⟨S, [u ++ s]⟩ := by simp [Frame.extend]
      rw [Frame.read, hf, ih]
      simp [hy, write]
    | .mark .delimiter, _ =>
      have ih := all_read hx (S ++ [u]) []
      have hf : (Frame.mk S [u]).close = ⟨S ++ [u], [[]]⟩ := rfl
      rw [Frame.read, hf, ih]
      simp [hy]

/-- A selection without brackets means its pieces between delimiters. -/
theorem meaning_of_free {ts : List Token} (h : ∀ t ∈ ts, t.isBracket = false) :
    meaning ts = some ((ts.splitOn (.mark .delimiter)).map (writeAll m)) := by
  have h1 := meaningFrom_free h .start [] []
  have h2 := all_read m h [] []
  obtain ⟨y, ys, hy⟩ := List.exists_cons_of_ne_nil (List.splitOn_ne_nil (.mark .delimiter) ts)
  rw [List.append_nil] at h1
  rw [meaning, h1, meaningFrom, Frame.start, h2]
  simp [hy]

/-- A group without a bracket in it adds its pieces between delimiters as choices. -/
theorem meaningFrom_group {x : List Token} (h : ∀ t ∈ x, t.isBracket = false) (f : Frame)
    (outer : List Frame) (ts : List Token) :
    meaningFrom f outer (.mark .opener :: (x ++ .mark .closer :: ts)) =
      meaningFrom (f.extend ((x.splitOn (.mark .delimiter)).map (writeAll m))) outer ts := by
  have h2 := all_read m h [] []
  obtain ⟨y, ys, hy⟩ := List.exists_cons_of_ne_nil (List.splitOn_ne_nil (.mark .delimiter) x)
  rw [meaningFrom, meaningFrom_free h, meaningFrom, Frame.start, h2]
  simp [hy]

end

/-- A trail adds choices, and nothing else. -/
theorem exists_extend_of_trail {x : List Token} (hx : Trail x) :
    ∃ xs, ∀ (f : Frame) (outer : List Frame) (ts : List Token),
      meaningFrom f outer (x ++ ts) = meaningFrom (f.extend xs) outer ts := by
  induction hx with
  | nil => exact ⟨[[]], fun f outer ts => by rw [Frame.extend_one, List.nil_append]⟩
  | text s _ ih =>
    obtain ⟨xs, ih⟩ := ih
    refine ⟨combine [s] xs, fun f outer ts => ?_⟩
    rw [List.cons_append, meaningFrom, ih, Frame.extend_extend]
  | @group content ts hc _ ih =>
    obtain ⟨xs, ih⟩ := ih
    -- the markers do not matter, for no alternative holds one
    refine ⟨combine ((content.splitOn (.mark .delimiter)).map (writeAll .standard)) xs,
      fun f outer us => ?_⟩
    rw [List.cons_append, List.append_assoc, List.cons_append, meaningFrom_group .standard hc, ih,
      Frame.extend_extend]

theorem balanced_succ_of_not_mem : ∀ {ts : List Token}, .mark .closer ∉ ts → ∀ depth : Nat,
    balanced (depth + 1) ts = false
  | [], _, _ => rfl
  | .text _ :: ts, h, depth => by
    rw [balanced, balanced_succ_of_not_mem fun hm => h (List.mem_cons_of_mem _ hm)]
  | .mark .delimiter :: ts, h, depth => by
    rw [balanced, balanced_succ_of_not_mem fun hm => h (List.mem_cons_of_mem _ hm)]
  | .mark .opener :: ts, h, depth => by
    rw [balanced, balanced_succ_of_not_mem fun hm => h (List.mem_cons_of_mem _ hm)]
  | .mark .closer :: ts, h, _ => absurd List.mem_cons_self h

/-- Where a trail stops, it does not matter how the texts read are spread over the
segments. -/
theorem meaningFrom_congr_of_stops {f g : Frame} (h : f.all = g.all) :
    ∀ {ts : List Token}, Stops ts → ∀ outer : List Frame,
    meaningFrom f outer ts = meaningFrom g outer ts
  | [], _, [] => by rw [meaningFrom, meaningFrom, h]
  | [], _, _ :: _ => rfl
  | .text s :: ts, hs, _ => absurd hs (not_stops_text s ts)
  | .mark .delimiter :: ts, _, outer => by
    rw [meaningFrom, meaningFrom, Frame.close, Frame.close, h]
  | .mark .closer :: ts, _, [] => rfl
  | .mark .closer :: ts, _, _ :: _ => by rw [meaningFrom, meaningFrom, h]
  | .mark .opener :: ts, hs, outer => by
    have hnone : ∀ e : Frame, meaningFrom .start (e :: outer) ts = none := by
      intro e
      refine Option.not_isSome_iff_eq_none.1 ?_
      rw [isSome_meaningFrom, List.length_cons, balanced_succ_of_not_mem (stops_opener.1 hs)]
      simp
    rw [meaningFrom, meaningFrom, hnone, hnone]

/-! ### A pass keeps the meaning -/

/-- Alternatives written out before a trail mean what the group and the trail mean,
in a frame at the start of a segment. -/
theorem exists_frame_of_copies (m : Markers) {lead trail : List Token} {xs : List Text}
    (hl : ∀ t ∈ lead, t.isText = true)
    (ht : ∀ (f : Frame) (outer : List Frame) (ts : List Token),
      meaningFrom f outer (trail ++ ts) = meaningFrom (f.extend xs) outer ts) :
    ∀ {as : List (List Token)}, as ≠ [] → (∀ a ∈ as, ∀ t ∈ a, t.isText = true) → ∀ S : List Text,
    ∃ f : Frame, f.all = S ++ combine (as.map fun a => writeAll m lead ++ writeAll m a) xs ∧
      ∀ (outer : List Frame) (ts : List Token),
        meaningFrom ⟨S, [[]]⟩ outer
            ([.mark .delimiter].intercalate (as.map fun a => lead ++ a ++ trail) ++ ts) =
          meaningFrom f outer ts
  | [], h, _, _ => absurd rfl h
  | a :: as, _, h, S => by
    -- one copy, whatever comes behind it
    have hcopy : ∀ (outer : List Frame) (ts : List Token),
        meaningFrom ⟨S, [[]]⟩ outer (lead ++ a ++ trail ++ ts) =
          meaningFrom ⟨S, combine [writeAll m lead ++ writeAll m a] xs⟩ outer ts := by
      intro outer ts
      have htexts : ∀ t ∈ lead ++ a, t.isText = true := fun t hta =>
        (List.mem_append.1 hta).elim (hl t) (h a List.mem_cons_self t)
      rw [List.append_assoc, meaningFrom_free (isBracket_of_texts htexts), read_texts m htexts, ht,
        writeAll_append, Frame.extend_extend]
      simp only [Frame.extend, Text.one_combine]
    cases as with
    | nil =>
      refine ⟨⟨S, combine [writeAll m lead ++ writeAll m a] xs⟩, rfl, fun outer ts => ?_⟩
      rw [List.map_singleton, List.intercalate_singleton, hcopy]
    | cons a' as =>
      obtain ⟨f, hf, hrun⟩ := exists_frame_of_copies m hl ht (List.cons_ne_nil a' as)
        (fun b hb => h b (List.mem_cons_of_mem _ hb))
        (S ++ combine [writeAll m lead ++ writeAll m a] xs)
      refine ⟨f, ?_, fun outer ts => ?_⟩
      · rw [hf, List.map_cons (a := a), Text.combine_cons, List.append_assoc]
        simp
      · rw [List.map_cons, List.map_cons, List.intercalate_cons_cons, List.append_assoc,
          List.append_assoc, hcopy, List.singleton_append, meaningFrom]
        exact hrun outer ts

/-- **A pass keeps the meaning**, from any place at which a reader may stand: at the
start of a segment where a site may start, and anywhere else. -/
theorem meaningFrom_settle (b : Bool) (ts : List Token) : ∀ (f : Frame) (outer : List Frame),
    (b = true → f.growing = [[]]) → meaningFrom f outer (settle b ts) = meaningFrom f outer ts := by
  induction b, ts using cut_induction with
  | nil b => intro f outer _; rw [settle_nil]
  | token b t ts h ih =>
    intro f outer _
    rw [settle_token h]
    match t, outer with
    | .text s, _ =>
      rw [meaningFrom, meaningFrom, ih _ _ (by simp [isBoundary])]
    | .mark .delimiter, _ => rw [meaningFrom, meaningFrom, ih _ _ fun _ => rfl]
    | .mark .opener, _ => rw [meaningFrom, meaningFrom, ih _ _ fun _ => rfl]
    | .mark .closer, [] => rfl
    | .mark .closer, g :: outer =>
      rw [meaningFrom, meaningFrom, ih _ _ (by simp [isBoundary])]
  | site p rest h ih =>
    intro f outer hf
    obtain ⟨S, growing⟩ := f
    obtain rfl : growing = [[]] := hf rfl
    let m := Markers.standard
    obtain ⟨xs, ht⟩ := exists_extend_of_trail h.trail
    obtain ⟨g, hg, hcopies⟩ := exists_frame_of_copies m h.lead ht
      (List.splitOn_ne_nil (.mark .delimiter) p.content) (fun a => h.texts) S
    have hsite : ∀ ts, meaningFrom ⟨S, [[]]⟩ outer (p.tokens ++ ts) =
        meaningFrom ⟨S, combine (p.alternatives.map fun a => writeAll m p.lead ++ writeAll m a) xs⟩
          outer ts := by
      intro ts
      rw [Site.tokens, List.append_assoc, List.cons_append, List.append_assoc, List.cons_append,
        meaningFrom_free (isBracket_of_texts h.lead), read_texts m h.lead,
        meaningFrom_group m h.content, ht, Frame.extend_extend, Frame.extend_extend]
      simp [Frame.extend, Site.alternatives, List.map_map, Function.comp_def, ← Text.combine_assoc]
    rw [settle_site h, Site.spread, Site.alternatives, hcopies, ih _ _ (by simp), hsite]
    exact meaningFrom_congr_of_stops hg h.stops outer

theorem meaning_settle (ts : List Token) : meaning (settle true ts) = meaning ts :=
  meaningFrom_settle true ts .start [] fun _ => rfl

/-! ### While a bracket is left, a site is -/

namespace Token

theorem balanced_append_of_free : ∀ {x : List Token}, (∀ t ∈ x, t.isBracket = false) →
    ∀ (depth : Nat) (y : List Token), balanced depth (x ++ y) = balanced depth y
  | [], _, _, _ => rfl
  | t :: x, h, depth, y => by
    have ih := balanced_append_of_free (fun u hu => h u (List.mem_cons_of_mem _ hu)) depth y
    have ht := h t List.mem_cons_self
    rw [List.cons_append]
    match t, ht with
    | text s, _ => rw [balanced, ih]
    | mark .delimiter, _ => rw [balanced, ih]

theorem exists_balanced_of_cons {depth : Nat} {t : Token} {ts : List Token}
    (h : balanced depth (t :: ts) = true) : ∃ d, balanced d ts = true := by
  match t, depth, h with
  | text s, depth, h => exact ⟨depth, by rwa [balanced] at h⟩
  | mark .delimiter, depth, h => exact ⟨depth, by rwa [balanced] at h⟩
  | mark .opener, depth, h => exact ⟨depth + 1, by rwa [balanced] at h⟩
  | mark .closer, depth + 1, h => exact ⟨depth, h⟩

theorem exists_balanced_of_append : ∀ {x y : List Token} {depth : Nat},
    balanced depth (x ++ y) = true → ∃ d, balanced d y = true
  | [], _, depth, h => ⟨depth, h⟩
  | _ :: _, _, _, h => by
    obtain ⟨d, hd⟩ := exists_balanced_of_cons h
    exact exists_balanced_of_append hd

/-- Inside a group a bracket comes. -/
theorem nearest?_ne_none_of_balanced {depth : Nat} {ts : List Token}
    (h : balanced (depth + 1) ts = true) : nearest? ts ≠ none := by
  intro hk
  have hmem : mark .closer ∉ ts := fun hm => by
    simpa [isBracket] using nearest?_eq_none_iff.1 hk _ hm
  rw [balanced_succ_of_not_mem hmem] at h
  cases h

/-- Outside of groups the next bracket is an opener. -/
theorem nearest?_ne_closer_of_balanced {ts : List Token} (h : balanced 0 ts = true) :
    nearest? ts ≠ some .closer := by
  intro hk
  obtain ⟨x, y, rfl, hx⟩ := exists_of_nearest? hk
  rw [balanced_append_of_free hx, balanced] at h
  cases h

/-- An opener of a balanced list has a bracket behind it. -/
theorem nearest?_ne_none_of_opener {depth : Nat} {x us : List Token}
    (h : balanced depth (x ++ mark .opener :: us) = true) : nearest? us ≠ none := by
  obtain ⟨d, hd⟩ := exists_balanced_of_append h
  exact nearest?_ne_none_of_balanced (by rwa [balanced] at hd)

end Token

/-- A group in which and behind which nothing nests is a site, if a segment starts
before it and no bracket stands between. -/
theorem any_isSite_of_group {us : List Token} (hk : nearest? us = some .closer)
    (hn : nests us = false) : ∀ {x : List Token}, (∀ t ∈ x, t.isBracket = false) →
    ∀ b, b = true ∨ .mark .delimiter ∈ x →
    (cut b (x ++ .mark .opener :: us)).any Part.isSite = true := by
  obtain ⟨content, trail, rest, rfl, hc, ht, hr, hflat⟩ := exists_content hk hn
  intro x
  induction x with
  | nil =>
    intro _ b hb
    obtain rfl : b = true := by simpa using hb
    have hfit : (Site.mk [] content trail).Fits rest := ⟨by simp, hc, ht, hr, hflat⟩
    have := cut_site hfit
    simp only [Site.tokens, List.nil_append, List.cons_append, List.append_assoc] at this ⊢
    rw [this, List.any_cons, Part.isSite, Bool.true_or]
  | cons t x ih =>
    intro hx b hb
    have hx' : ∀ u ∈ x, u.isBracket = false := fun u hu => hx u (List.mem_cons_of_mem _ hu)
    by_cases hd : t.isBoundary = true ∨ .mark .delimiter ∈ x
    · exact any_isSite_cons (ih hx' _ hd)
    · -- no delimiter comes, so that the texts are the ones before the group
      have htexts : ∀ u ∈ t :: x, u.isText = true := by
        intro u hu
        refine isText_of_free (hx u hu) ?_
        rintro rfl
        rcases List.mem_cons.1 hu with rfl | hu
        · exact hd (.inl rfl)
        · exact hd (.inr hu)
      obtain rfl : b = true := by
        rcases hb with hb | hb
        · exact hb
        · simpa [isText] using htexts _ hb
      have hfit : (Site.mk (t :: x) content trail).Fits rest := ⟨htexts, hc, ht, hr, hflat⟩
      have := cut_site hfit
      simp only [Site.tokens, List.cons_append, List.append_assoc] at this ⊢
      rw [this, List.any_cons, Part.isSite, Bool.true_or]

/-- A balanced list in which nothing nests, and in which a group comes, has a site. -/
theorem any_isSite_of_flat {depth : Nat} {ts : List Token} (hbal : balanced depth ts = true)
    (hn : nests ts = false) (hk : nearest? ts = some .opener) :
    (cut true ts).any Part.isSite = true := by
  obtain ⟨x, us, rfl, hx⟩ := exists_of_nearest? hk
  rw [nests_append_of_free hx] at hn
  obtain ⟨hus, hne⟩ := nests_opener.1 hn
  refine any_isSite_of_group ?_ hus hx true (.inl rfl)
  cases hk' : nearest? us with
  | none => exact absurd hk' (nearest?_ne_none_of_opener hbal)
  | some k =>
    cases k with
    | opener => exact absurd hk' hne
    | delimiter => exact absurd hk' (nearest?_ne_delimiter us)
    | closer => rfl

/-- The last opener that nests has a site behind it. -/
theorem any_isSite_of_nests : ∀ {ts : List Token} {depth : Nat}, balanced depth ts = true →
    nests ts = true → ∀ b, (cut b ts).any Part.isSite = true
  | [], _, _, h, _ => by cases h
  | t :: ts, depth, hbal, h, b => by
    obtain ⟨d, hd⟩ := exists_balanced_of_cons hbal
    refine any_isSite_cons ?_
    by_cases hn : nests ts = true
    · exact any_isSite_of_nests hd hn _
    · rw [Bool.not_eq_true] at hn
      match t, h with
      | .text s, h => exact absurd h (by simp [nests, hn])
      | .mark .closer, h => exact absurd h (by simp [nests, hn])
      | .mark .delimiter, h => exact absurd h (by simp [nests, hn])
      | .mark .opener, h => exact any_isSite_of_flat hd hn (by simpa [nests, hn] using h)

/-- **While a balanced list holds a bracket, it holds a site.** -/
theorem any_isSite_of_mem {ts : List Token} (hbal : balanced 0 ts = true) {t : Token}
    (ht : t ∈ ts) (hb : t.isBracket = true) : (cut true ts).any Part.isSite = true := by
  by_cases hn : nests ts = true
  · exact any_isSite_of_nests hbal hn true
  · refine any_isSite_of_flat hbal (by simpa using hn) ?_
    cases hk : nearest? ts with
    | none =>
      rw [nearest?_eq_none_iff.1 hk t ht] at hb
      cases hb
    | some k =>
      cases k with
      | opener => rfl
      | closer => exact absurd hk (nearest?_ne_closer_of_balanced hbal)
      | delimiter => exact absurd hk (nearest?_ne_delimiter ts)

/-! ### From a source to its meaning -/

open Expansion

variable {m : Markers}

/-- The meaning does not depend on how runs of text are cut. -/
theorem meaningFrom_fine : ∀ (f : Frame) (outer : List Frame) (ts : List Token),
    meaningFrom f outer (ts.flatMap fine) = meaningFrom f outer ts
  | _, _, [] => rfl
  | f, outer, .text s :: ts => by
    have h : ∀ t ∈ fine (.text s), t.isText = true := fun t => isText_of_mem_fine
    rw [List.flatMap_cons, meaningFrom_free (isBracket_of_texts h), read_texts .standard h,
      writeAll_fine, meaningFrom_fine, meaningFrom, write]
  | f, outer, .mark .delimiter :: ts => by
    rw [List.flatMap_cons, fine, List.singleton_append, meaningFrom, meaningFrom_fine, meaningFrom]
  | f, outer, .mark .opener :: ts => by
    rw [List.flatMap_cons, fine, List.singleton_append, meaningFrom, meaningFrom_fine, meaningFrom]
  | f, g :: outer, .mark .closer :: ts => by
    rw [List.flatMap_cons, fine, List.singleton_append, meaningFrom, meaningFrom_fine, meaningFrom]
  | _, [], .mark .closer :: _ => rfl

theorem meaning_symbols (m : Markers) (s : Text) : meaning (symbols m s) = meaning (tokenize m s) :=
  meaningFrom_fine .start [] _

/-- Along a run that reads back the meaning stays what it was. -/
theorem Seamless.meaning_after : ∀ {n : Nat} {s t : Text}, Seamless m s → after m n s = some t →
    meaning (symbols m t) = meaning (symbols m s)
  | 0, _, _, _, ht => by cases ht; rfl
  | n + 1, s, t, h, ht => by
    obtain ⟨u, hu, ht⟩ := Option.bind_eq_some_iff.1 ht
    rw [(h.of_pass hu).meaning_after ht, h.symbols_pass hu, meaning_settle]

/-- At the end of a run a source with a meaning has no bracket left, and its pieces
between delimiters are its meaning. -/
theorem splitPaths_of_end {t : Text} {xs : List Text} (hm : meaning (symbols m t) = some xs)
    (hp : pass m t = none) :
    (∀ u ∈ tokenize m t, u.isBracket = false) ∧ splitPaths m t = xs := by
  have hbal : balanced 0 (symbols m t) = true := by rw [← isSome_meaning, hm, Option.isSome_some]
  have hfree : ∀ u ∈ symbols m t, u.isBracket = false := by
    intro u hu
    by_contra hb
    have hsite := any_isSite_of_mem hbal hu (by simpa using hb)
    rw [pass_eq, advance?, if_pos hsite] at hp
    cases hp
  constructor
  · intro u hu
    cases u with
    | text s => rfl
    | mark k => exact hfree _ (mark_mem_flatMap_fine.2 hu)
  · have hread := read_symbols (m := m) t
    rw [← List.append_nil (symbols m t)] at hread
    have hsplit := splitOn_writeAll hfree hread
    rw [writeAll_symbols] at hsplit
    rw [meaning_of_free m hfree, Option.some.injEq] at hm
    rw [splitPaths, hsplit, hm]

theorem paths_of_expand {s t : Text} (hs : s ≠ []) (h : expand m none s = .done t)
    (default : List Text) : paths m default (some s) = .done (splitPaths m t) := by
  rw [paths_of_ne_nil m default hs, h]
  rfl

/-- **A source whose passes read back ends in its meaning.** -/
theorem Seamless.ends_in_meaning {s : Text} (h : Seamless m s) {xs : List Text}
    (hm : meaning (tokenize m s) = some xs) :
    ∃ n t, after m n s = some t ∧ pass m t = none ∧ expand m none s = .done t ∧
      (∀ u ∈ tokenize m t, u.isBracket = false) ∧
      (s ≠ [] → ∀ default, paths m default (some s) = .done xs) := by
  obtain ⟨n, t, -, ht, hp⟩ := h.exists_end
  rw [← meaning_symbols, ← h.meaning_after ht] at hm
  obtain ⟨hfree, hsplit⟩ := splitPaths_of_end hm hp
  have hexpand := expand_none_of_end ht hp
  refine ⟨n, t, ht, hp, hexpand, hfree, fun hs default => ?_⟩
  rw [paths_of_expand hs hexpand, hsplit]

end FieldSelection
