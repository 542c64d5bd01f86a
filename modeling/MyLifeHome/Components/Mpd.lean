import MyLifeHome.Components.Types
import MyLifeHome.Library.Runs

/-!
# The MPD component

`comp_mpd.c` waits in MPD's idle mode. When MPD reports a change it reads the status; an
action leaves idle mode, throws away what MPD answers to that, runs its command and goes idle
again. The attributes are written when a value differs from the one kept in the component,
which nothing initialises.
-/
namespace MyLifeHome.Components.Mpd

open Runs

/-- `struct mpd_status` -/
structure Status where
  state : MpdState
  volume : CInt
  deriving DecidableEq

/-- `enum mpd_idle`, of which the component asks for `MPD_IDLE_PLAYER | MPD_IDLE_MIXER`. -/
structure Idle where
  player : Bool
  mixer : Bool
  deriving DecidableEq

def Idle.none : Idle := ⟨false, false⟩

def Idle.or (a b : Idle) : Idle := ⟨a.player || b.player, a.mixer || b.mixer⟩

/-- `struct component`, with the values of its object. The state is `none` when the memory holds
a number that is none of the states. -/
structure Component where
  state : Option MpdState
  volume : CInt
  attributes : String → Option NetValue

def Component.attributeChange (comp : Component) (name : String) (value : NetValue) : Component :=
  { comp with attributes := Function.update comp.attributes name (some value) }

/-- The first half of `change_status`. -/
def changeState (comp : Component) (state : MpdState) : Component :=
  if comp.state ≠ some state then
    { comp with state := some state }.attributeChange "state" (.enumValue (states state))
  else comp

/-- The second half of `change_status`. -/
def changeVolume (comp : Component) (volume : CInt) : Component :=
  if comp.volume ≠ volume then
    { comp with volume := volume }.attributeChange "volume" (.rangeValue volume)
  else comp

def changeStatus (comp : Component) (state : MpdState) (volume : CInt) : Component :=
  changeVolume (changeState comp state) volume

/-- MPD, what it has to report since it was told to idle, and the component. -/
structure World where
  mpd : Status
  pending : Idle
  comp : Component

def readStatus (w : World) : Component := changeStatus w.comp w.mpd.state w.mpd.volume

/-- `creator`, in memory that holds `state` and `volume`. -/
def creator (mpd : Status) (state : Option MpdState) (volume : CInt) : World :=
  { mpd
    pending := .none
    comp := readStatus ⟨mpd, .none, ⟨state, volume, fun _ => none⟩⟩ }

/-- A change of the state is reported as one of the player, and a change of the volume as one
of the mixer; `also` stands for the changes that the status does not show. -/
def report (before after : Status) (also : Idle) : Idle :=
  also.or ⟨before.state ≠ after.state, before.volume ≠ after.volume⟩

/-- `mpd_send_noidle` and `mpd_recv_idle`, the command, `mpd_send_idle_mask`. -/
def World.command (w : World) (outcome : Status) (also : Idle) : World :=
  { w with mpd := outcome, pending := report w.mpd outcome also }

def World.setstate (w : World) (state : String) (outcome : Status) (also : Idle) : Option World :=
  (requested state).map fun estate =>
    { w.command outcome also with comp := changeStatus w.comp estate w.comp.volume }

def World.setvolume (w : World) (volume : CInt) (outcome : Status) (also : Idle) : Option World :=
  w.comp.state.map fun state =>
    { w.command outcome also with comp := changeStatus w.comp state volume }

/-- What happens next. `outcome` is the status of MPD afterwards. -/
inductive Event where
  | change (outcome : Status) (also : Idle)
  | idle
  | setstate (state : String) (outcome : Status) (also : Idle)
  | setvolume (volume : CInt) (outcome : Status) (also : Idle)

/-- There is no next state when nothing is there to be read, or when the process ends. -/
def World.step (w : World) : Event → Option World
  | .change outcome also =>
    some { w with mpd := outcome, pending := w.pending.or (report w.mpd outcome also) }
  | .idle =>
    if w.pending = .none then none else some { w with pending := .none, comp := readStatus w }
  | .setstate state outcome also => w.setstate state outcome also
  | .setvolume volume outcome also => w.setvolume volume outcome also

/-- One event. -/
def Step (w : World) (e : Event) (u : World) : Prop := w.step e = some u

/-! ## Writing the attributes -/

variable {w u : World} {comp : Component} {e : Event} {es : List Event}
  {mpd outcome s t : Status} {memory : Option MpdState} {state : MpdState} {volume : CInt}
  {also : Idle}

theorem states_injective : Function.Injective states := by
  intro a b h
  cases a <;> cases b <;> simp [states] at h ⊢

@[simp] theorem changeState_state : (changeState comp state).state = some state := by
  unfold changeState
  split_ifs with h
  · rfl
  · simpa using h

@[simp] theorem changeState_volume : (changeState comp state).volume = comp.volume := by
  unfold changeState
  split_ifs <;> rfl

@[simp] theorem changeVolume_state : (changeVolume comp volume).state = comp.state := by
  unfold changeVolume
  split_ifs <;> rfl

@[simp] theorem changeVolume_volume : (changeVolume comp volume).volume = volume := by
  unfold changeVolume
  split_ifs with h
  · rfl
  · simpa using h

/-- The attribute of the state is written unless the component already kept the state. -/
theorem changeStatus_attributes_state : (changeStatus comp state volume).attributes "state" =
    if comp.state = some state then comp.attributes "state"
    else some (.enumValue (states state)) := by
  have hkeep : (changeStatus comp state volume).attributes "state" =
      (changeState comp state).attributes "state" := by
    unfold changeStatus changeVolume
    split_ifs <;> simp [Component.attributeChange]
  rw [hkeep, changeState]
  split_ifs <;> simp_all [Component.attributeChange]

theorem changeStatus_attributes_volume : (changeStatus comp state volume).attributes "volume" =
    if comp.volume = volume then comp.attributes "volume" else some (.rangeValue volume) := by
  have hkeep : (changeState comp state).attributes "volume" = comp.attributes "volume" := by
    unfold changeState
    split_ifs <;> simp [Component.attributeChange]
  unfold changeStatus changeVolume
  rw [changeState_volume]
  split_ifs <;> simp_all [Component.attributeChange]

/-! ## What is published -/

/-- The attributes are set, and are those of a status. -/
def Component.Shows (comp : Component) (status : Status) : Prop :=
  comp.attributes "state" = some (.enumValue (states status.state)) ∧
    comp.attributes "volume" = some (.rangeValue status.volume)

/-- When no notification is pending, the attributes are the status of MPD. -/
def World.Published (w : World) : Prop := w.pending = .none → w.comp.Shows w.mpd

/-- The attributes are the values kept in the component. -/
def Component.Mirrors (comp : Component) : Prop :=
  ∃ state, comp.state = some state ∧ comp.Shows ⟨state, comp.volume⟩

theorem Component.Shows.unique (hs : comp.Shows s) (ht : comp.Shows t) : s = t := by
  obtain ⟨a, v⟩ := s
  obtain ⟨b, u⟩ := t
  have hstate : states a = states b := by simpa using hs.1.symm.trans ht.1
  have hvolume : v = u := by simpa using hs.2.symm.trans ht.2
  simp [states_injective hstate, hvolume]

theorem Component.Shows.mirrors (h : (changeStatus comp state volume).Shows ⟨state, volume⟩) :
    (changeStatus comp state volume).Mirrors :=
  ⟨state, by simp [changeStatus], by simpa [changeStatus] using h⟩

theorem Component.Mirrors.shows (h : comp.Mirrors) :
    (changeStatus comp state volume).Shows ⟨state, volume⟩ := by
  obtain ⟨kept, hkept, hstate, hvolume⟩ := h
  refine ⟨?_, ?_⟩
  · rw [changeStatus_attributes_state]
    split_ifs with hsame
    · have hsame : kept = state := by simpa [hkept] using hsame
      rw [hstate, hsame]
    · rfl
  · rw [changeStatus_attributes_volume]
    split_ifs with hsame
    · rw [hvolume, hsame]
    · rfl

/-- What the component mirrors is the only status that it shows. -/
theorem Component.Mirrors.shows_iff (h : comp.Mirrors) :
    (changeStatus comp state volume).Shows s ↔ s = ⟨state, volume⟩ := by
  constructor
  · intro hs
    exact hs.unique h.shows
  · intro hs
    rw [hs]
    exact h.shows

/-- The attributes are set at first exactly when the memory differs from both values. -/
theorem creator_published_iff :
    (creator mpd memory volume).Published ↔ memory ≠ some mpd.state ∧ volume ≠ mpd.volume := by
  have h : (creator mpd memory volume).Published ↔ (creator mpd memory volume).comp.Shows mpd := by
    simp [World.Published, creator]
  rw [h]
  unfold Component.Shows creator readStatus
  simp only [changeStatus_attributes_state, changeStatus_attributes_volume]
  split_ifs <;> simp_all

theorem Status.eq_iff : s = ⟨state, volume⟩ ↔ s.state = state ∧ s.volume = volume := by
  cases s
  simp

theorem Idle.or_eq_none_iff {a b : Idle} : a.or b = .none ↔ a = .none ∧ b = .none := by
  obtain ⟨p, m⟩ := a
  obtain ⟨q, n⟩ := b
  simp only [Idle.or, Idle.none, Idle.mk.injEq, Bool.or_eq_false_iff]
  grind

/-- MPD reports nothing only when its status stays as it is. -/
theorem report_eq_none_iff : report s t also = .none ↔ also = .none ∧ t = s := by
  rw [report, Idle.or_eq_none_iff]
  refine and_congr_right fun _ => ?_
  obtain ⟨a, v⟩ := s
  rw [Status.eq_iff]
  simp only [Idle.none, Idle.mk.injEq, decide_eq_false_iff_not, not_not]
  exact and_congr eq_comm eq_comm

/-- An action whose command changes nothing finds MPD as it asks for, and the other attribute
up to date: the change that it discards is not read again. -/
def World.Settles (w : World) : Event → Prop
  | .setstate state outcome also => report w.mpd outcome also = .none →
    requested state = some w.mpd.state ∧
      w.comp.attributes "volume" = some (.rangeValue w.mpd.volume)
  | .setvolume volume outcome also => report w.mpd outcome also = .none →
    volume = w.mpd.volume ∧ w.comp.attributes "state" = some (.enumValue (states w.mpd.state))
  | _ => True

/-- The component mirrors its attributes, and they are right. -/
def Inv (w : World) : Prop := w.comp.Mirrors ∧ w.Published

theorem creator_inv (h : (creator mpd memory volume).Published) :
    Inv (creator mpd memory volume) :=
  ⟨(h rfl).mirrors, h⟩

theorem Step.mirrors (hw : w.comp.Mirrors) (h : Step w e u) : u.comp.Mirrors := by
  cases e with
  | change outcome also =>
    obtain rfl := Option.some.inj h
    exact hw
  | idle =>
    simp only [Step, World.step] at h
    split_ifs at h
    obtain rfl := Option.some.inj h
    exact hw.shows.mirrors
  | setstate state outcome also =>
    obtain ⟨estate, -, rfl⟩ := Option.map_eq_some_iff.mp h
    exact hw.shows.mirrors
  | setvolume volume outcome also =>
    obtain ⟨state, -, rfl⟩ := Option.map_eq_some_iff.mp h
    exact hw.shows.mirrors

/-- After an action the attributes are right exactly when the command makes MPD report something
or finds the status that they then show. -/
theorem command_published_iff (hw : w.comp.Mirrors) :
    ({ w.command outcome also with comp := changeStatus w.comp state volume } : World).Published ↔
      (report w.mpd outcome also = .none → w.mpd = ⟨state, volume⟩) := by
  refine forall_congr' fun hnone => ?_
  have hsame : outcome = w.mpd := (report_eq_none_iff.mp hnone).2
  rw [← hsame]
  exact hw.shows_iff

theorem Step.published_iff (hw : Inv w) (h : Step w e u) : u.Published ↔ w.Settles e := by
  obtain ⟨hmirrors, hpublished⟩ := hw
  cases e with
  | change outcome also =>
    obtain rfl := Option.some.inj h
    simp only [World.Settles, iff_true]
    intro hnone
    have hboth := Idle.or_eq_none_iff.mp hnone
    have hsame : outcome = w.mpd := (report_eq_none_iff.mp hboth.2).2
    simp only [hsame]
    exact hpublished hboth.1
  | idle =>
    simp only [Step, World.step] at h
    split_ifs at h
    obtain rfl := Option.some.inj h
    simp only [World.Settles, iff_true]
    exact fun _ => hmirrors.shows
  | setstate state outcome also =>
    obtain ⟨estate, hestate, rfl⟩ := Option.map_eq_some_iff.mp h
    rw [command_published_iff hmirrors]
    refine forall_congr' fun _ => ?_
    obtain ⟨_, -, -, hvolume⟩ := hmirrors
    rw [hestate, hvolume, Status.eq_iff]
    simp [eq_comm]
  | setvolume volume outcome also =>
    obtain ⟨state, hstate, rfl⟩ := Option.map_eq_some_iff.mp h
    rw [command_published_iff hmirrors]
    refine forall_congr' fun _ => ?_
    obtain ⟨kept, hkept, hshown, -⟩ := hmirrors
    obtain rfl : kept = state := by simpa [hkept] using hstate
    rw [hshown, Status.eq_iff]
    simp [states_injective.eq_iff, eq_comm, and_comm]

/-- The attributes are right all along a run exactly when the memory of the component differs
from the first status and every action settles. -/
theorem publishes_iff :
    (creator mpd memory volume).Published ∧
      Steps (fun w e u => Step w e u ∧ u.Published) (creator mpd memory volume) es u ↔
    (memory ≠ some mpd.state ∧ volume ≠ mpd.volume) ∧
      Steps (guarded World.Settles Step) (creator mpd memory volume) es u := by
  rw [creator_published_iff]
  refine and_congr_right fun h => ?_
  exact steps_and_iff_guarded (P := Inv) (fun hi h hu => ⟨h.mirrors hi.1, hu⟩)
    (fun hi h => h.published_iff hi) (creator_inv (creator_published_iff.mpr h))

/-- MPD stands still at volume 20, and the volume goes up just before it is told to stop, which
it does already: the answer to `noidle` had the change of the volume. -/
theorem not_publishes : ¬∀ (mpd : Status) (memory : Option MpdState) (volume : CInt)
    (es : List Event) (u : World), Steps Step (creator mpd memory volume) es u → u.Published := by
  intro h
  let w := creator ⟨.stop, 20⟩ none 0
  let e : Event := .change ⟨.stop, 50⟩ .none
  let a : Event := .setstate "stop" ⟨.stop, 50⟩ .none
  have hrun : Steps Step w [e, a] (((w.step e).bind (·.step a)).getD w) :=
    .cons (u := (w.step e).getD w) rfl (.cons rfl (.nil _))
  have hshows := (h _ _ _ _ _ hrun rfl).2
  simp [w, e, a, World.step, World.setstate, World.command, requested, states, creator,
    readStatus, changeStatus_attributes_volume] at hshows

end MyLifeHome.Components.Mpd
