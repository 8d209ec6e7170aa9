import Ece385.Tetris.Keyboard
import Mathlib.Data.Finset.Insert
import Mathlib.Data.List.Infix

/-!
# Tetris — what ignoring auto-repeats loses

The decoder drops a make code that equals `Typematic_Keycode`, taking for
granted that the outputs already show that key. They do until some key is
released: a release overwrites the outputs but clears `Typematic_Keycode` only
if it names the released key. A key still held and repeating is then dropped
while the outputs keep showing the release of the other one.

* `Legal` — the interleavings of presses, repeats and releases a typist can
  produce.
* `Tracks` — the invariant: `Typematic_Keycode` is the key made last, as long
  as it is held.

Main results:

* `reports_all_iff` — every event of a stream is reported right exactly if no
  repeat of the key made last follows the release of another key.
* `held_key_reported_released` — two keys are enough.
-/

namespace Ece385.Tetris

/-! ## Typing -/

/-- The keys down after an event. -/
def KeyEvent.hold (down : Finset Key) : KeyEvent → Finset Key
  | .press k => insert k down
  | .autoRepeat _ => down
  | .release k => down.erase k

/-- A key is pressed while up, and repeats or is released while down. -/
def KeyEvent.Possible (down : Finset Key) : KeyEvent → Prop
  | .press k => k ∉ down
  | .autoRepeat k => k ∈ down
  | .release k => k ∈ down

instance (down : Finset Key) : DecidablePred (KeyEvent.Possible down)
  | .press k => inferInstanceAs (Decidable (k ∉ down))
  | .autoRepeat k => inferInstanceAs (Decidable (k ∈ down))
  | .release k => inferInstanceAs (Decidable (k ∈ down))

/-- The key of the last make code, pressed or repeated. -/
def KeyEvent.makes (last : Option Key) : KeyEvent → Option Key
  | .press k => some k
  | .autoRepeat k => some k
  | .release _ => last

/-- The keys down after typing `es`, with none down before. -/
def held (es : List KeyEvent) : Finset Key := es.foldl KeyEvent.hold ∅

def lastMade (es : List KeyEvent) : Option Key := es.foldl KeyEvent.makes none

/-- Any interleaving, over any number of keys, that starts with no key down. -/
def Legal (es : List KeyEvent) : Prop := ∀ pre e, pre ++ [e] <+: es → e.Possible (held pre)

theorem held_append (es : List KeyEvent) (e : KeyEvent) :
    held (es ++ [e]) = e.hold (held es) :=
  List.foldl_append

theorem lastMade_append (es : List KeyEvent) (e : KeyEvent) :
    lastMade (es ++ [e]) = e.makes (lastMade es) :=
  List.foldl_append

theorem Legal.of_prefix {es pre : List KeyEvent} (h : Legal es) (hPre : pre <+: es) : Legal pre :=
  fun pre' e hPre' => h pre' e (hPre'.trans hPre)

theorem Legal.last {es : List KeyEvent} {e : KeyEvent} (h : Legal (es ++ [e])) :
    e.Possible (held es) :=
  h es e (List.prefix_refl _)

theorem legal_nil : Legal [] := by
  intro pre e h
  exact absurd (List.prefix_nil.mp h) (by simp)

theorem Legal.snoc {es : List KeyEvent} {e : KeyEvent} (h : Legal es)
    (hLast : e.Possible (held es)) : Legal (es ++ [e]) := by
  intro pre e' hPre
  -- the whole stream, or a prefix of what was typed before
  rcases List.prefix_concat_iff.mp hPre with hEq | hBefore
  · obtain ⟨rfl, rfl⟩ := List.append_inj' hEq rfl |>.imp_right List.singleton_inj.mp
    exact hLast
  · exact h pre e' hBefore

/-! ## One event -/

namespace Keyboard

variable {s : Keyboard} {es : List KeyEvent} {k : Key}

/-- The outputs `keyCode` and `press` show the event. -/
structure Reports (s : Keyboard) (code : BitVec 8) (press : Bool) : Prop where
  keyCode : s.decoder.data = code
  press : s.decoder.press = press

/-- What the outputs are to show after an event. -/
def ReportsEvent (s : Keyboard) : KeyEvent → Prop
  | .press k => s.Reports k.code true
  | .autoRepeat k => s.Reports k.code true
  | .release k => s.Reports k.code false

/-- `Typematic_Keycode` is the key made last, as long as it is held. -/
structure Tracks (s : Keyboard) (es : List KeyEvent) : Prop where
  lastByte : s.lastByte ≠ 0xF0
  typematic : ∀ k : Key,
    k.code = s.decoder.typematicKeycode ↔ lastMade es = some k ∧ k ∈ held es

theorem decode_make (h : s.lastByte ≠ 0xF0) (k : Key) :
    s.decode [k.code] =
      { decoder :=
          if k.code = s.decoder.typematicKeycode then s.decoder
          else { data := k.code, press := true, typematicKeycode := k.code }
        lastByte := k.code } := by
  show s.receive k.code 1 = _
  rw [receive, Function.iterate_one, Decoder.step_made k.ne_extended k.ne_break h]

theorem decode_release (s : Keyboard) (k : Key) :
    s.decode [0xF0, k.code] =
      { decoder :=
          { data := k.code
            press := false
            typematicKeycode :=
              if k.code = s.decoder.typematicKeycode then 0x00
              else s.decoder.typematicKeycode }
        lastByte := k.code } := by
  show (s.receive 0xF0 1).receive k.code 1 = _
  rw [receive, receive, Function.iterate_one, Function.iterate_one,
    Decoder.step_announced (Or.inr rfl), Decoder.step_released k.ne_extended k.ne_break]

/-- A make code other than the repeat code is shown and becomes the repeat code. -/
theorem Tracks.made (h : s.Tracks es) {e : KeyEvent} (hBytes : e.bytes = [k.code])
    (hMakes : e.makes (lastMade es) = some k) (hHold : k ∈ e.hold (held es))
    (hNew : k.code ≠ s.decoder.typematicKeycode) :
    (s.decode e.bytes).Tracks (es ++ [e]) ∧ (s.decode e.bytes).Reports k.code true := by
  rw [hBytes, decode_make h.lastByte, if_neg hNew]
  refine ⟨⟨k.ne_break, fun j => ?_⟩, ⟨rfl, rfl⟩⟩
  rw [lastMade_append, held_append, hMakes, Key.code_inj, Option.some.injEq]
  constructor
  · rintro rfl
    exact ⟨rfl, hHold⟩
  · exact fun hEq => hEq.1.symm

theorem Tracks.press (h : s.Tracks es) (hUp : k ∉ held es) :
    (s.decode (KeyEvent.press k).bytes).Tracks (es ++ [.press k]) ∧
      (s.decode (KeyEvent.press k).bytes).Reports k.code true :=
  h.made rfl rfl (Finset.mem_insert_self k _) fun hSame => hUp ((h.typematic k).mp hSame).2

theorem Tracks.release (h : s.Tracks es) :
    (s.decode (KeyEvent.release k).bytes).Tracks (es ++ [.release k]) ∧
      (s.decode (KeyEvent.release k).bytes).Reports k.code false := by
  rw [KeyEvent.bytes, decode_release]
  refine ⟨⟨k.ne_break, fun j => ?_⟩, ⟨rfl, rfl⟩⟩
  rw [lastMade_append, held_append, KeyEvent.makes, KeyEvent.hold, Finset.mem_erase]
  by_cases hSame : k.code = s.decoder.typematicKeycode
  · -- the repeating key itself is released
    rw [if_pos hSame]
    refine iff_of_false j.ne_zero ?_
    rintro ⟨hLast, hNe, -⟩
    rw [((h.typematic k).mp hSame).1] at hLast
    exact hNe (Option.some.inj hLast).symm
  · -- the key made last is another one and stays down
    rw [if_neg hSame, h.typematic j]
    refine and_congr_right fun hLast => ⟨fun hDown => ⟨?_, hDown⟩, fun hDown => hDown.2⟩
    rintro rfl
    exact hSame ((h.typematic j).mpr ⟨hLast, hDown⟩)

/-- A repeat of the key made last leaves the outputs as they are; any other
repeat is shown. -/
theorem Tracks.autoRepeat (h : s.Tracks es) (hDown : k ∈ held es) :
    (s.decode (KeyEvent.autoRepeat k).bytes).Tracks (es ++ [.autoRepeat k]) ∧
      if lastMade es = some k then
        (s.decode (KeyEvent.autoRepeat k).bytes).decoder = s.decoder
      else (s.decode (KeyEvent.autoRepeat k).bytes).Reports k.code true := by
  by_cases hLast : lastMade es = some k
  · have hSame : k.code = s.decoder.typematicKeycode := (h.typematic k).mpr ⟨hLast, hDown⟩
    rw [if_pos hLast, KeyEvent.bytes, decode_make h.lastByte, if_pos hSame]
    refine ⟨⟨k.ne_break, fun j => ?_⟩, rfl⟩
    rw [lastMade_append, held_append, KeyEvent.makes, KeyEvent.hold, ← hLast]
    exact h.typematic j
  · rw [if_neg hLast]
    exact h.made rfl rfl hDown fun hSame => hLast ((h.typematic k).mp hSame).1

/-! ## A whole stream -/

/-- Nothing typed yet: no key repeats and no release is under way. `Data` and
`Press` may show anything. -/
structure Idle (s : Keyboard) : Prop where
  lastByte : s.lastByte ≠ 0xF0
  typematic : s.decoder.typematicKeycode = 0x00

/-- Power-up. -/
def initial : Keyboard := { decoder := ⟨0, false, 0⟩, lastByte := 0 }

theorem idle_initial : initial.Idle := ⟨by decide, rfl⟩

theorem Idle.tracks (h : s.Idle) : s.Tracks [] where
  lastByte := h.lastByte
  typematic := fun k => by
    rw [h.typematic]
    exact iff_of_false k.ne_zero fun hDown => Finset.notMem_empty k hDown.2

theorem decode_scanCodes_append (s : Keyboard) (es : List KeyEvent) (e : KeyEvent) :
    s.decode (scanCodes (es ++ [e])) = (s.decode (scanCodes es)).decode e.bytes := by
  rw [scanCodes, List.flatMap_append, List.flatMap_singleton, decode_append]
  rfl

/-- The invariant holds along every legal stream. -/
theorem Idle.tracks_decode (h : s.Idle) (hLegal : Legal es) :
    (s.decode (scanCodes es)).Tracks es := by
  induction es using List.reverseRecOn with
  | nil => exact h.tracks
  | append_singleton es e ih =>
    have hTracks := ih (hLegal.of_prefix (List.prefix_append _ _))
    have hPossible := hLegal.last
    rw [decode_scanCodes_append]
    cases e with
    | press k => exact (hTracks.press hPossible).1
    | autoRepeat k => exact (hTracks.autoRepeat hPossible).1
    | release k => exact hTracks.release.1

/-- After every event of the stream, however often its bytes were decoded, the
outputs show it. -/
def ReportsAll (s : Keyboard) (es : List KeyEvent) : Prop :=
  ∀ pre e, pre ++ [e] <+: es → ∀ s', s.Decodes (scanCodes (pre ++ [e])) s' → s'.ReportsEvent e

/-- A repeat of the key made last that comes right after the release of another
key. -/
def RepeatAfterRelease (es : List KeyEvent) : Prop :=
  ∃ pre r k, pre ++ [.release r, .autoRepeat k] <+: es ∧ lastMade pre = some k

/-- A dropped repeat is reported right if the event before it was and was no
release. -/
theorem reportsEvent_of_dropped {e : KeyEvent} (hBefore : s.ReportsEvent e)
    (hLast : lastMade (es ++ [e]) = some k) (hMade : ∀ r, e ≠ .release r) :
    s.Reports k.code true := by
  rw [lastMade_append] at hLast
  cases e with
  | press j => exact Option.some.inj hLast ▸ hBefore
  | autoRepeat j => exact Option.some.inj hLast ▸ hBefore
  | release r => exact absurd rfl (hMade r)

/-- Every event is reported right if no such repeat occurs. -/
theorem Idle.reportsEvent (h : s.Idle) {e : KeyEvent} (hLegal : Legal (es ++ [e]))
    (hNone : ¬ RepeatAfterRelease (es ++ [e])) :
    (s.decode (scanCodes (es ++ [e]))).ReportsEvent e := by
  induction es using List.reverseRecOn generalizing e with
  | nil =>
    rw [decode_scanCodes_append]
    have hTracks : (s.decode (scanCodes [])).Tracks [] := h.tracks
    cases e with
    | press k => exact (hTracks.press hLegal.last).2
    | autoRepeat k => exact absurd hLegal.last (Finset.notMem_empty k)
    | release k => exact hTracks.release.2
  | append_singleton es e' ih =>
    have hPre : es ++ [e'] <+: es ++ [e'] ++ [e] := List.prefix_append _ _
    have hBefore := ih (hLegal.of_prefix hPre) fun ⟨pre, r, k, hIn, hLast⟩ =>
      hNone ⟨pre, r, k, hIn.trans hPre, hLast⟩
    have hTracks := h.tracks_decode (hLegal.of_prefix hPre)
    rw [decode_scanCodes_append]
    cases e with
    | press k => exact (hTracks.press hLegal.last).2
    | release k => exact hTracks.release.2
    | autoRepeat k =>
      have hShown := (hTracks.autoRepeat hLegal.last).2
      by_cases hLast : lastMade (es ++ [e']) = some k
      · -- dropped: the outputs are those of the event before
        rw [if_pos hLast] at hShown
        have hMade : ∀ r, e' ≠ .release r := by
          rintro r rfl
          rw [lastMade_append] at hLast
          exact hNone ⟨es, r, k, by simp, hLast⟩
        obtain ⟨hCode, hPress⟩ := reportsEvent_of_dropped hBefore hLast hMade
        exact ⟨by rw [hShown, hCode], by rw [hShown, hPress]⟩
      · rw [if_neg hLast] at hShown
        exact hShown

/-- Such a repeat is dropped while the outputs show the release. -/
theorem Idle.not_reports_of_repeatAfterRelease (h : s.Idle) {r : Key}
    (hLegal : Legal (es ++ [.release r, .autoRepeat k])) (hLast : lastMade es = some k) :
    ¬ (s.decode (scanCodes (es ++ [.release r, .autoRepeat k]))).Reports k.code true := by
  have hSplit : es ++ [.release r, .autoRepeat k] = es ++ [.release r] ++ [.autoRepeat k] := by
    rw [List.append_assoc]
    rfl
  rw [hSplit] at hLegal ⊢
  have hLegalR := hLegal.of_prefix (List.prefix_append _ _)
  have hTracks := h.tracks_decode (hLegalR.of_prefix (List.prefix_append _ _))
  have hTracksR := h.tracks_decode hLegalR
  have hLastR : lastMade (es ++ [.release r]) = some k := by
    rw [lastMade_append]
    exact hLast
  have hDropped := (hTracksR.autoRepeat hLegal.last).2
  rw [if_pos hLastR, decode_scanCodes_append] at hDropped
  rw [decode_scanCodes_append, decode_scanCodes_append]
  -- the release set `Press` to 0 and nothing has written it since
  intro hReports
  have hPress := hReports.press
  rw [hDropped, hTracks.release.2.press] at hPress
  exact absurd hPress (by decide)

/-- For every interleaving of presses, repeats and releases that starts with no
key down, decoding each byte any positive number of times: every make code is
answered by `(c, 1)` and every break code by `(c, 0)` exactly if no repeat of
the key made last comes right after the release of another key. -/
theorem reports_all_iff (h : s.Idle) (hLegal : Legal es) :
    s.ReportsAll es ↔ ¬ RepeatAfterRelease es := by
  constructor
  · rintro hAll ⟨pre, r, k, hIn, hLast⟩
    refine h.not_reports_of_repeatAfterRelease (hLegal.of_prefix hIn) hLast ?_
    have hSplit : pre ++ [.release r, .autoRepeat k] = pre ++ [.release r] ++ [.autoRepeat k] := by
      rw [List.append_assoc]
      rfl
    rw [hSplit] at hIn ⊢
    exact hAll _ _ hIn _ (decodes_iff.mpr rfl)
  · intro hNone pre e hPre s' hDecodes
    rw [decodes_iff.mp hDecodes]
    refine h.reportsEvent (hLegal.of_prefix hPre) ?_
    rintro ⟨pre', r, k, hIn, hLast⟩
    exact hNone ⟨pre', r, k, hIn.trans hPre, hLast⟩

/-! ## Two keys -/

/-- The keys of the game that move the piece left and right. -/
def leftKey : Key := ⟨0x1C, by decide, by decide, by decide⟩
def rightKey : Key := ⟨0x23, by decide, by decide, by decide⟩

theorem reports_all_iff_tap :
    initial.ReportsAll [.press leftKey, .autoRepeat leftKey, .release leftKey] ↔
      ¬ RepeatAfterRelease [.press leftKey, .autoRepeat leftKey, .release leftKey] :=
  reports_all_iff idle_initial
    (((legal_nil.snoc (by decide)).snoc (by decide)).snoc (by decide))

/-- Press left, press right, let go of left: the right key, down and repeating,
is not reported. -/
def rollOver : List KeyEvent :=
  [.press leftKey, .press rightKey, .release leftKey, .autoRepeat rightKey]

theorem held_key_reported_released :
    initial.Idle ∧ Legal rollOver ∧ rightKey ∈ held rollOver ∧
      scanCodes rollOver = [0x1C, 0x23, 0xF0, 0x1C, 0x23] ∧
      (∀ s, initial.Decodes (scanCodes rollOver) s → s.Reports 0x1C false) ∧
      ¬ initial.ReportsAll rollOver := by
  have hShown : ∀ s, initial.Decodes (scanCodes rollOver) s → s.Reports 0x1C false := by
    intro s hDecodes
    rw [decodes_iff.mp hDecodes]
    exact ⟨by decide, by decide⟩
  have hLegal : Legal rollOver :=
    (((legal_nil.snoc (by decide)).snoc (by decide)).snoc (by decide)).snoc (by decide)
  refine ⟨idle_initial, hLegal, by decide, by decide, hShown, fun hAll => ?_⟩
  have hRight : (initial.decode (scanCodes rollOver)).Reports rightKey.code true :=
    hAll [.press leftKey, .press rightKey, .release leftKey] (.autoRepeat rightKey)
      (List.prefix_refl _) _ (decodes_iff.mpr rfl)
  have hReleased := hShown _ (decodes_iff.mpr rfl)
  exact absurd (hRight.press.symm.trans hReleased.press) (by decide)

end Keyboard

end Ece385.Tetris
