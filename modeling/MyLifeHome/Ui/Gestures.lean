import Mathlib.Data.List.Chain
import Mathlib.Data.List.Flatten
import MyLifeHome.Library.Runs

/-!
# Presses on a command

`inputManager` makes strings of short and long presses. A string ends when nothing has happened for
300 ms after a press.
-/
namespace MyLifeHome.Ui.InputManager

/-- A call of the manager, or the end of the wait, with the time. -/
inductive Event where
  | down (t : Int)
  | up (t : Int)
  | timeout (t : Int)
  deriving DecidableEq

/-- What `$timeout` returns; the function is still to be called or not. -/
structure Timer where
  due : Int
  pending : Bool
  deriving DecidableEq

structure State where
  lastDown : Option Int
  eventStack : String
  endWait : Option Timer
  executed : List String

def init : State := ⟨none, "", none, []⟩

namespace State

def cancel (s : State) : State :=
  { s with endWait := s.endWait.map fun timer => { timer with pending := false } }

def executeEvents (s : State) : State := { s with executed := s.executed ++ [s.eventStack] }

def down (s : State) (t : Int) : State := { s.cancel with lastDown := some t }

def up (s : State) (up_ts : Int) : State :=
  let s := s.cancel
  match s.lastDown with
  | none => { s with eventStack := "" }
  | some down_ts =>
    { s with
      lastDown := none
      eventStack := s.eventStack.push (if up_ts - down_ts < 500 then 's' else 'l')
      endWait := some ⟨up_ts + 300, true⟩ }

/-- The function that waits for the end of the input. -/
def timeout (s : State) : State := { s.executeEvents with eventStack := "", endWait := none }

/-- The function is still to be called. -/
def Waits (s : State) : Prop := ∃ due, s.endWait = some ⟨due, true⟩

end State

def Step (s : State) : Event → State → Prop
  | .down t, s' => s' = s.down t
  | .up t, s' => s' = s.up t
  | .timeout t, s' => (∃ due, s.endWait = some ⟨due, true⟩ ∧ due ≤ t) ∧ s' = s.timeout

/-! ## Presses -/

/-- A down and the next up. -/
structure Press where
  start : Int
  stop : Int
  deriving DecidableEq

/-- The presses that the events complete, after a down at the given time. -/
def presses : Option Int → List Event → List Press
  | _, [] => []
  | _, .down t :: es => presses (some t) es
  | none, .up _ :: es => presses none es
  | some t, .up t' :: es => ⟨t, t'⟩ :: presses none es
  | lastDown, .timeout _ :: es => presses lastDown es

def Press.letter (p : Press) : Char := if p.stop - p.start < 500 then 's' else 'l'

def letters (group : List Press) : String := String.ofList (group.map Press.letter)

/-- No more than 300 ms lie between the presses. -/
def Close (p q : Press) : Prop := q.start ≤ p.stop + 300

instance (p q : Press) : Decidable (Close p q) := inferInstanceAs (Decidable (_ ≤ _))

/-- Each completed press is in one group, and the strings are the letters of the groups. -/
def Segmented (es : List Event) (executed : List String) : Prop :=
  ∃ groups : List (List Press), groups.flatten = presses none es ∧
    (∀ group ∈ groups, group ≠ [] ∧ group.IsChain Close) ∧ executed = groups.map letters

/-- After a press comes the end of the wait; or downs and an up, the last of the downs in time. -/
def Followed (stop : Int) (es : List Event) : Prop :=
  (∃ t rest, es = .timeout t :: rest) ∨
    ∃ (ts : List Int) (start t : Int) (rest : List Event),
      es = ts.map .down ++ .down start :: .up t :: rest ∧ start ≤ stop + 300

/-- It is so after every press. -/
def Orderly (es : List Event) : Prop :=
  ∀ before start stop after, es = before ++ .down start :: .up stop :: after → Followed stop after

variable {s s' : State} {es : List Event} {e : Event} {group : List Press} {p : Press}
  {lastDown : Option Int} {t t' stop start : Int}

theorem letters_concat (group : List Press) (p : Press) :
    letters (group ++ [p]) = (letters group).push p.letter := by
  rw [← String.toList_inj]
  simp [letters]

@[simp] theorem length_letters (group : List Press) : (letters group).length = group.length := by
  simp [letters]

/-! ## What follows a press -/

theorem orderly_nil : Orderly [] := by
  intro before start stop after heq
  simp at heq

/-- A press starts with the first two events, or it comes later. -/
theorem orderly_cons_iff : Orderly (e :: es) ↔
    (∀ start stop after, e :: es = .down start :: .up stop :: after → Followed stop after) ∧
      Orderly es := by
  constructor
  · refine fun h => ⟨fun start stop after heq => h [] start stop after heq, ?_⟩
    intro before start stop after heq
    exact h (e :: before) start stop after (by rw [heq, List.cons_append])
  · rintro ⟨hfirst, hrest⟩ before start stop after heq
    cases before with
    | nil => exact hfirst start stop after heq
    | cons e' before => exact hrest before start stop after (List.cons.inj heq).2

theorem orderly_up_iff : Orderly (.up t :: es) ↔ Orderly es := by simp [orderly_cons_iff]

theorem orderly_timeout_iff : Orderly (.timeout t :: es) ↔ Orderly es := by
  simp [orderly_cons_iff]

theorem orderly_down_down_iff :
    Orderly (.down t :: .down t' :: es) ↔ Orderly (.down t' :: es) := by
  rw [orderly_cons_iff]
  simp

theorem orderly_press_iff :
    Orderly (.down start :: .up stop :: es) ↔ Followed stop es ∧ Orderly es := by
  rw [orderly_cons_iff, orderly_up_iff]
  simp

theorem followed_timeout : Followed stop (.timeout t :: es) := .inl ⟨t, es, rfl⟩

theorem not_followed_up : ¬Followed stop (.up t :: es) := by
  rintro (⟨_, _, heq⟩ | ⟨ts, start, t', rest, heq, -⟩)
  · cases heq
  · cases ts <;> cases heq

theorem not_followed_down : ¬Followed stop [.down t] := by
  rintro (⟨_, _, heq⟩ | ⟨ts, start, t', rest, heq, -⟩)
  · cases heq
  · have hlength := congrArg List.length heq
    simp at hlength
    omega

/-- A down after another one does away with it. -/
theorem followed_down_down_iff :
    Followed stop (.down t :: .down t' :: es) ↔ Followed stop (.down t' :: es) := by
  constructor
  · rintro (⟨_, _, heq⟩ | ⟨ts, start, t'', rest, heq, hle⟩)
    · cases heq
    · cases ts with
      | nil => cases (List.cons.inj heq).2
      | cons t₀ ts => exact .inr ⟨ts, start, t'', rest, (List.cons.inj heq).2, hle⟩
  · rintro (⟨_, _, heq⟩ | ⟨ts, start, t'', rest, heq, hle⟩)
    · cases heq
    · exact .inr ⟨t :: ts, start, t'', rest, by rw [heq]; rfl, hle⟩

theorem followed_press_iff :
    Followed stop (.down start :: .up t :: es) ↔ start ≤ stop + 300 := by
  constructor
  · rintro (⟨_, _, heq⟩ | ⟨ts, start', t', rest, heq, hle⟩)
    · cases heq
    · cases ts with
      | nil =>
        obtain ⟨hdown, -⟩ := List.cons.inj heq
        obtain rfl := Event.down.inj hdown
        exact hle
      | cons t₀ ts =>
        obtain ⟨-, heq⟩ := List.cons.inj heq
        cases ts <;> cases heq
  · exact fun hle => .inr ⟨[], start, t, es, rfl, hle⟩

/-! ## The group that is open -/

/-- The presses of the pending string. -/
structure Open (s : State) (group : List Press) : Prop where
  stack : s.eventStack = letters group
  waits : s.Waits ↔ s.lastDown = none ∧ group ≠ []

/-- What is needed for the pending presses and the next ones, with the events that are left. -/
structure Fits (lastDown : Option Int) (group : List Press) (es : List Event) : Prop where
  close : group.IsChain Close
  followed : ∀ p ∈ group.getLast?, Followed p.stop (lastDown.toList.map .down ++ es)
  orderly : Orderly (lastDown.toList.map .down ++ es)

theorem not_waits_cancel : ¬s.cancel.Waits := by
  rintro ⟨due, h⟩
  simp [State.cancel] at h

theorem Open.down (h : Open s group) : Open (s.down t) group where
  stack := h.stack
  waits := iff_of_false not_waits_cancel (by simp [State.down])

theorem fits_down_iff : Fits lastDown group (.down t :: es) ↔ Fits (some t) group es := by
  cases lastDown with
  | none =>
    constructor
    · rintro ⟨hclose, hfollowed, horderly⟩
      exact ⟨hclose, hfollowed, horderly⟩
    · rintro ⟨hclose, hfollowed, horderly⟩
      exact ⟨hclose, hfollowed, horderly⟩
  | some t' =>
    constructor
    · rintro ⟨hclose, hfollowed, horderly⟩
      exact ⟨hclose, fun p hp => followed_down_down_iff.mp (hfollowed p hp),
        orderly_down_down_iff.mp horderly⟩
    · rintro ⟨hclose, hfollowed, horderly⟩
      exact ⟨hclose, fun p hp => followed_down_down_iff.mpr (hfollowed p hp),
        orderly_down_down_iff.mpr horderly⟩

theorem up_of_none (t : Int) (hlast : s.lastDown = none) :
    s.up t = { s.cancel with eventStack := "" } := by simp [State.up, State.cancel, hlast]

theorem up_of_some (stop : Int) (hlast : s.lastDown = some start) : s.up stop = { s.cancel with
    lastDown := none
    eventStack := s.eventStack.push (if stop - start < 500 then 's' else 'l')
    endWait := some ⟨stop + 300, true⟩ } := by simp [State.up, State.cancel, hlast]

/-- An up that is not expected throws the string away. -/
theorem open_up_none (hlast : s.lastDown = none) : Open (s.up t) [] := by
  rw [up_of_none t hlast]
  exact ⟨rfl, iff_of_false not_waits_cancel (by simp)⟩

theorem Open.up_some (h : Open s group) (hlast : s.lastDown = some start) :
    Open (s.up stop) (group ++ [⟨start, stop⟩]) := by
  rw [up_of_some stop hlast]
  refine ⟨?_, iff_of_true ⟨_, rfl⟩ ⟨rfl, by simp⟩⟩
  rw [letters_concat, ← h.stack]
  rfl

theorem fits_press_iff : Fits (some start) group (.up stop :: es) ↔
    Fits none (group ++ [⟨start, stop⟩]) es := by
  have hchain : (group ++ [(⟨start, stop⟩ : Press)]).IsChain Close ↔
      group.IsChain Close ∧ ∀ p ∈ group.getLast?, Close p ⟨start, stop⟩ := by
    simp [List.isChain_append]
  constructor
  · rintro ⟨hclose, hfollowed, horderly⟩
    obtain ⟨hnext, horderly⟩ := orderly_press_iff.mp horderly
    refine ⟨hchain.mpr ⟨hclose, fun p hp => followed_press_iff.mp (hfollowed p hp)⟩,
      fun p hp => ?_, horderly⟩
    obtain rfl : (⟨start, stop⟩ : Press) = p := by simpa using hp
    exact hnext
  · rintro ⟨hclose, hfollowed, horderly⟩
    obtain ⟨hclose, hlast⟩ := hchain.mp hclose
    exact ⟨hclose, fun p hp => followed_press_iff.mpr (hlast p hp),
      orderly_press_iff.mpr ⟨hfollowed ⟨start, stop⟩ (by simp), horderly⟩⟩

theorem open_timeout : Open s.timeout [] := by
  refine ⟨rfl, iff_of_false ?_ (by simp)⟩
  rintro ⟨due, hdue⟩
  cases hdue

/-! ## Runs -/

/-- The groups of a run, each with whether its string is executed. -/
abbrev Groups := List (List Press × Bool)

def Groups.executed (groups : Groups) : List (List Press) := (groups.filter Prod.snd).map Prod.fst

/-- The groups of the presses that are left, and what becomes of them. -/
structure Groups.Cut (groups : Groups) (s : State) (group : List Press) (es : List Event)
    (executed : List String) : Prop where
  flatten : (groups.map Prod.fst).flatten = group ++ presses s.lastDown es
  nonempty : ∀ g ∈ groups, g.1 ≠ []
  executed : executed = s.executed ++ groups.executed.map letters
  fits : (∀ g ∈ groups, g.2 = true ∧ g.1.IsChain Close) ↔ Fits s.lastDown group es

theorem Open.run (hrun : Runs.Steps Step s es s') (h : Open s group) (hend : ¬s'.Waits) :
    ∃ groups : Groups, groups.Cut s group es s'.executed := by
  induction hrun generalizing group with
  | nil s =>
    cases hlast : s.lastDown with
    | none =>
      obtain rfl : group = [] := by
        by_contra hne
        exact hend (h.waits.mpr ⟨hlast, hne⟩)
      exact ⟨[], by simp [presses], by simp, by simp [Groups.executed],
        iff_of_true (by simp) (hlast ▸ ⟨List.isChain_nil, by simp, orderly_nil⟩)⟩
    | some t =>
      by_cases hgroup : group = []
      · subst hgroup
        refine ⟨[], by simp [presses], by simp, by simp [Groups.executed],
          iff_of_true (by simp) (hlast ▸ ⟨List.isChain_nil, by simp, ?_⟩)⟩
        simp [orderly_cons_iff, orderly_nil]
      · -- the string stays without a timer
        refine ⟨[(group, false)], by simp [presses], by simpa using hgroup,
          by simp [Groups.executed], iff_of_false (by simp) ?_⟩
        rw [hlast]
        rintro ⟨-, hfollowed, -⟩
        obtain ⟨p, hp⟩ := Option.ne_none_iff_exists'.mp (mt List.getLast?_eq_none_iff.mp hgroup)
        exact not_followed_down (hfollowed p hp)
  | @cons s u _ e es hstep _ ih =>
    cases e with
    | down t =>
      obtain rfl := hstep
      obtain ⟨groups, hcut⟩ := ih h.down hend
      exact ⟨groups, hcut.flatten.trans (by rw [presses]; rfl), hcut.nonempty, hcut.executed,
        hcut.fits.trans fits_down_iff.symm⟩
    | up t =>
      obtain rfl := hstep
      cases hlast : s.lastDown with
      | none =>
        obtain ⟨groups, hflatten, hnonempty, hexecuted, hfits⟩ := ih (open_up_none hlast) hend
        have hup : (s.up t).lastDown = none ∧ (s.up t).executed = s.executed := by
          rw [up_of_none t hlast]
          exact ⟨hlast, rfl⟩
        rw [hup.1] at hflatten hfits
        rw [hup.2] at hexecuted
        by_cases hgroup : group = []
        · subst hgroup
          refine ⟨groups, by rw [hflatten, hlast, presses], hnonempty, hexecuted, hfits.trans ?_⟩
          rw [hlast]
          exact ⟨fun hf => ⟨hf.close, by simp, orderly_up_iff.mpr hf.orderly⟩,
            fun hf => ⟨hf.close, by simp, orderly_up_iff.mp hf.orderly⟩⟩
        · refine ⟨(group, false) :: groups, ?_, List.forall_mem_cons.mpr ⟨hgroup, hnonempty⟩, ?_,
            iff_of_false (by simp) ?_⟩
          · rw [List.map_cons, List.flatten_cons, hflatten, hlast, presses, List.nil_append]
          · simpa [Groups.executed] using hexecuted
          · rw [hlast]
            rintro ⟨-, hfollowed, -⟩
            obtain ⟨p, hp⟩ :=
              Option.ne_none_iff_exists'.mp (mt List.getLast?_eq_none_iff.mp hgroup)
            exact not_followed_up (hfollowed p hp)
      | some start =>
        obtain ⟨groups, hflatten, hnonempty, hexecuted, hfits⟩ := ih (h.up_some hlast) hend
        have hup : (s.up t).lastDown = none ∧ (s.up t).executed = s.executed := by
          rw [up_of_some t hlast]
          exact ⟨rfl, rfl⟩
        rw [hup.1] at hflatten hfits
        rw [hup.2] at hexecuted
        refine ⟨groups, ?_, hnonempty, hexecuted, hfits.trans ?_⟩
        · rw [hflatten, hlast, presses, List.append_assoc]
          rfl
        · rw [hlast]
          exact fits_press_iff.symm
    | timeout t =>
      obtain ⟨⟨due, hdue, _⟩, rfl⟩ := hstep
      obtain ⟨hlast, hgroup⟩ := h.waits.mp ⟨due, hdue⟩
      obtain ⟨groups, hflatten, hnonempty, hexecuted, hfits⟩ := ih (open_timeout (s := s)) hend
      rw [show s.timeout.lastDown = none from hlast] at hflatten hfits
      refine ⟨(group, true) :: groups, ?_, List.forall_mem_cons.mpr ⟨hgroup, hnonempty⟩, ?_, ?_⟩
      · rw [List.map_cons, List.flatten_cons, hflatten, hlast, presses, List.nil_append]
      · rw [hexecuted]
        simp [Groups.executed, State.timeout, State.executeEvents, h.stack]
      · rw [hlast, List.forall_mem_cons, hfits]
        constructor
        · rintro ⟨⟨-, hclose⟩, hf⟩
          exact ⟨hclose, fun p _ => followed_timeout, orderly_timeout_iff.mpr hf.orderly⟩
        · rintro ⟨hclose, -, horderly⟩
          exact ⟨⟨rfl, hclose⟩, List.isChain_nil, by simp, orderly_timeout_iff.mp horderly⟩

/-! ## Counting letters -/

/-- The strings that are executed have fewer letters when one is missing. -/
theorem all_executed_of_length {groups : Groups} (hne : ∀ g ∈ groups, g.1 ≠ [])
    (h : (groups.map Prod.fst).flatten.length ≤ groups.executed.flatten.length) :
    ∀ g ∈ groups, g.2 = true := by
  have hle : ∀ gs : Groups, gs.executed.flatten.length ≤ (gs.map Prod.fst).flatten.length :=
    fun gs => ((gs.filter_sublist (p := Prod.snd)).map Prod.fst).flatten.length_le
  induction groups with
  | nil => simp
  | cons g groups ih =>
    obtain ⟨hg, hne⟩ := List.forall_mem_cons.mp hne
    have hpos := List.length_pos_of_ne_nil hg
    have hrest := hle groups
    rw [List.map_cons, List.flatten_cons, List.length_append] at h
    cases hkept : g.2 with
    | true =>
      refine List.forall_mem_cons.mpr ⟨hkept, ih hne ?_⟩
      have hexecuted : Groups.executed (g :: groups) = g.1 :: Groups.executed groups := by
        simp [Groups.executed, hkept]
      rw [hexecuted, List.flatten_cons, List.length_append] at h
      exact Nat.le_of_add_le_add_left h
    | false =>
      have hexecuted : Groups.executed (g :: groups) = Groups.executed groups := by
        simp [Groups.executed, hkept]
      rw [hexecuted] at h
      omega

/-- The letters tell the groups. -/
theorem segmented_iff_fits {groups : Groups} {executed : List String}
    (hcut : groups.Cut init [] es executed) : Segmented es executed ↔ Fits none [] es := by
  have hexecuted : executed = groups.executed.map letters := by simpa [init] using hcut.executed
  have hflatten : (groups.map Prod.fst).flatten = presses none es := by
    simpa [init] using hcut.flatten
  refine Iff.trans ?_ hcut.fits
  constructor
  · rintro ⟨gs, hgs, hchain, heq⟩
    have hlengths : gs.map List.length = groups.executed.map List.length := by
      have h := congrArg (List.map String.length) (heq.symm.trans hexecuted)
      simpa [Function.comp_def] using h
    have hall : ∀ g ∈ groups, g.2 = true := by
      refine all_executed_of_length hcut.nonempty (Nat.le_of_eq ?_)
      rw [hflatten, ← hgs, List.length_flatten, List.length_flatten, hlengths]
    have hsame : groups.executed = groups.map Prod.fst := by
      rw [Groups.executed, List.filter_eq_self.mpr hall]
    have hgroups : gs = groups.map Prod.fst :=
      List.eq_iff_flatten_eq.mpr ⟨hgs.trans hflatten.symm, by rw [hlengths, hsame]⟩
    intro g hg
    exact ⟨hall g hg, (hchain g.1 (hgroups ▸ List.mem_map_of_mem hg)).2⟩
  · intro hall
    refine ⟨groups.map Prod.fst, hflatten, ?_, ?_⟩
    · rw [List.forall_mem_map]
      exact fun g hg => ⟨hcut.nonempty g hg, (hall g hg).2⟩
    · rw [hexecuted, Groups.executed, List.filter_eq_self.mpr fun g hg => (hall g hg).1]

theorem open_init : Open init [] :=
  ⟨rfl, iff_of_false (by rintro ⟨due, h⟩; cases h) (by simp)⟩

/-- The strings that are executed are the letters of the completed presses in their order, none
lost, with no pause of more than 300 ms within one, exactly when every press is followed in time. -/
theorem segmented_iff (hrun : Runs.Steps Step init es s) (hend : ¬s.Waits) :
    Segmented es s.executed ↔ Orderly es := by
  obtain ⟨groups, hcut⟩ := open_init.run hrun hend
  rw [segmented_iff_fits hcut]
  exact ⟨fun h => h.orderly, fun h => ⟨List.isChain_nil, by simp, h⟩⟩

/-- One press and the end of the wait. -/
theorem segmented_press : Segmented [.down 0, .up 100, .timeout 400] ["s"] := by
  have hrun : Runs.Steps Step init [.down 0, .up 100, .timeout 400]
      (((init.down 0).up 100).timeout) :=
    .cons rfl (.cons rfl (.cons ⟨⟨400, rfl, by decide⟩, rfl⟩ (.nil _)))
  refine (segmented_iff hrun ?_).mpr ?_
  · rintro ⟨due, h⟩
    cases h
  · exact orderly_press_iff.mpr ⟨followed_timeout, orderly_timeout_iff.mpr orderly_nil⟩

/-- A run that ends as it should has its presses followed in time. -/
theorem orderly_of_segmented (h : ∀ es s, Runs.Steps Step init es s → ¬s.Waits →
    Segmented es s.executed) (hrun : Runs.Steps Step init es s) (hend : ¬s.Waits) : Orderly es := by
  obtain ⟨groups, hcut⟩ := open_init.run hrun hend
  exact ((segmented_iff_fits hcut).mp (h es s hrun hend)).orderly

/-- The down that stops the wait has no up, and the next press comes much later: the string is
`ss`. -/
theorem not_segmented_downs : (((((init.down 0).up 100).down 200).down 2000).up 2100).timeout.executed
      = ["ss"] ∧
    ¬∀ es s, Runs.Steps Step init es s → ¬s.Waits → Segmented es s.executed := by
  refine ⟨by decide, fun h => ?_⟩
  have hrun : Runs.Steps Step init
      [.down 0, .up 100, .down 200, .down 2000, .up 2100, .timeout 2400]
      (((((init.down 0).up 100).down 200).down 2000).up 2100).timeout :=
    .cons rfl (.cons rfl (.cons rfl (.cons rfl (.cons rfl (.cons ⟨⟨2400, rfl, by decide⟩, rfl⟩
      (.nil _))))))
  have horderly := orderly_of_segmented h hrun (by rintro ⟨due, h⟩; cases h)
  have hfollowed := followed_down_down_iff.mp (orderly_press_iff.mp horderly).1
  exact absurd (followed_press_iff.mp hfollowed) (by decide)

end MyLifeHome.Ui.InputManager
