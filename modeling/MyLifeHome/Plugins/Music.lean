import MyLifeHome.Core.Emitter
import MyLifeHome.Core.Plugins
import MyLifeHome.Library.Runs

/-!
# The music player

The attributes of the music player over its actions and the two timers that delay its setters.
Its values stay in the space that the class declares as long as what a timer sets has not slipped
through the check of the action, and a step of the volume finds a volume.
-/
namespace MyLifeHome

open Runs

/-- The object of the player, and what the pending timers are to set. -/
structure MusicPlayer where
  object : NetObject
  timeouts : Timer → Option JsValue

namespace MusicPlayer

inductive Event where
  | action (name : String) (args : List JsValue)
  | expired (timer : Timer)

def perform (m : MusicPlayer) : PluginCall → Except JsError MusicPlayer
  | .setAttribute name value => do
    m.object.checkAttribute name value
    pure { m with object := m.object.assign name value }
  | .setTimeout timer value =>
    pure { m with timeouts := Function.update m.timeouts timer (some value) }

def create (id : String) : Except JsError MusicPlayer :=
  PluginType.music.initial.foldlM (fun m (name, value) => m.perform (.setAttribute name value))
    ⟨netObject id Music.clazz, fun _ => none⟩

def executeAction (m : MusicPlayer) (name : String) (args : List JsValue) :
    Except JsError MusicPlayer := do
  m.object.checkAction name args
  let calls ← PluginType.music.onAction m.object name args
  calls.foldlM perform m

def expire (m : MusicPlayer) (timer : Timer) : Except JsError MusicPlayer :=
  match m.timeouts timer with
  | none => pure m
  | some value => do
    let m ← m.perform (.setAttribute (Music.timerAttribute timer) value)
    pure { m with timeouts := Function.update m.timeouts timer none }

def handle (m : MusicPlayer) : Event → Except JsError MusicPlayer
  | .action name args => m.executeAction name args
  | .expired timer => m.expire timer

/-- No handler makes more than one call, so one that throws has changed nothing. -/
def Step (m : MusicPlayer) (e : Event) (m' : MusicPlayer) : Prop :=
  m' = match m.handle e with
    | .ok m' => m'
    | .error _ => m

def volume (m : MusicPlayer) : JsValue := m.object.attributeValues "volume"

def state (m : MusicPlayer) : JsValue := m.object.attributeValues "state"

/-! ## The space of the values -/

/-- The volume is `null` or between the bounds, the state `null` or one of the four. -/
structure Within (m : MusicPlayer) : Prop where
  volume : Music.volume.Holds m.volume
  state : Music.state.Holds m.state

/-- The values are in the space, and after a step of the volume there is one. -/
def Leaves (e : Event) (m : MusicPlayer) : Prop :=
  m.Within ∧ (e = .action "volume-more" [] ∨ e = .action "volume-less" [] →
    Music.volume.Member m.volume)

/-- The type of what a timer sets. -/
def timerType : Timer → NetType
  | .state => Music.state
  | .volume => Music.volume

/-- A timer that expires sets nothing that has slipped through, and a step of the volume does
not find it `null`. -/
def Careful (m : MusicPlayer) : Event → Prop
  | .action name args => (name = "volume-more" ∨ name = "volume-less") → args = [] →
      m.volume ≠ .null
  | .expired timer => ∀ value, m.timeouts timer = some value → ¬(timerType timer).Slips value

/-- What is pending has passed the check of its action. -/
def Checked (timeouts : Timer → Option JsValue) : Prop := ∀ timer value,
  timeouts timer = some value → checkArg value (timerType timer) = .ok ()

structure Inv (m : MusicPlayer) : Prop where
  within : m.Within
  clazz : m.object.clazz = Music.clazz
  pending : Checked m.timeouts

variable {m m' : MusicPlayer} {e : Event} {name : String} {value : JsValue} {timer : Timer}

/-! ## Calls of the handlers -/

theorem attribute_timerAttribute (timer : Timer) :
    Music.clazz.attribute (Music.timerAttribute timer) = .ok (timerType timer) := by
  cases timer <;> rfl

/-- Setting an attribute to a value that its type accepts. -/
theorem perform_setAttribute (timer : Timer) (hclazz : m.object.clazz = Music.clazz)
    (hvalue : checkArg value (timerType timer) = .ok ()) :
    m.perform (.setAttribute (Music.timerAttribute timer) value) =
      .ok { m with object := m.object.assign (Music.timerAttribute timer) value } := by
  have hcheck : m.object.checkAttribute (Music.timerAttribute timer) value = .ok () := by
    refine NetObject.checkAttribute_eq_ok_iff.mpr ⟨timerType timer, ?_, hvalue⟩
    rw [hclazz, attribute_timerAttribute]
  rw [perform, hcheck]
  rfl

theorem within_iff : m.Within ↔ ∀ timer,
    (timerType timer).Holds (m.object.attributeValues (Music.timerAttribute timer)) := by
  constructor
  · rintro ⟨hvolume, hstate⟩ timer
    cases timer with
    | state => exact hstate
    | volume => exact hvolume
  · exact fun h => ⟨h .volume, h .state⟩

/-- One value is set, and the other one stays in the space. -/
theorem within_assign (h : m.Within)
    (hobject : m'.object = m.object.assign (Music.timerAttribute timer) value) :
    m'.Within ↔ (timerType timer).Holds value := by
  rw [within_iff, hobject]
  constructor
  · intro hw
    simpa using hw timer
  · intro hvalue t
    by_cases heq : t = timer
    · subst heq
      simpa using hvalue
    · have hne : Music.timerAttribute t ≠ Music.timerAttribute timer := by
        cases t <;> cases timer <;> first | exact absurd rfl heq | decide
      rw [NetObject.assign_of_ne hne]
      exact within_iff.mp h t

/-- What the eight actions do. -/
theorem onAction_cases {o : NetObject} {args : List JsValue} (hclazz : o.clazz = Music.clazz)
    (h : o.checkAction name args = .ok ()) :
    (∃ timer value, args = [value] ∧ checkArg value (timerType timer) = .ok () ∧
      (name ≠ "volume-more" ∧ name ≠ "volume-less") ∧
      PluginType.music.onAction o name args = .ok [.setTimeout timer value]) ∨
    (∃ value, Music.state.Member value ∧ (name ≠ "volume-more" ∧ name ≠ "volume-less") ∧
      PluginType.music.onAction o name args = .ok [.setAttribute "state" value]) ∨
    (args = [] ∧ ∃ bounded : Int → Int, (∀ n, 0 ≤ n → n ≤ 100 → 0 ≤ bounded n ∧ bounded n ≤ 100) ∧
      (name = "volume-more" ∨ name = "volume-less") ∧
      PluginType.music.onAction o name args = Music.volumeStep bounded o) := by
  obtain ⟨types, haction, hlength, hargs⟩ := NetObject.checkAction_eq_ok_iff.mp h
  rw [hclazz, NetClass.action_eq_ok_iff] at haction
  have hmem := List.mem_of_find?_eq_some haction
  simp only [Music.clazz, netClass, netAttribute, netAction, List.mem_cons, NetMember.mk.injEq,
    MemberType.action.injEq, reduceCtorEq, and_false, List.not_mem_nil, or_false, false_or] at hmem
  have hsetter : ∀ type, types = [type] → ∃ value, args = [value] ∧ checkArg value type = .ok () := by
    rintro type rfl
    obtain ⟨value, rfl⟩ := List.length_eq_one_iff.mp hlength
    exact ⟨value, rfl, hargs (value, type) (by simp)⟩
  have hnone : types = [] → args = [] := by
    rintro rfl
    exact List.length_eq_zero_iff.mp hlength
  rcases hmem with ⟨rfl, htypes⟩ | ⟨rfl, htypes⟩ | ⟨rfl, htypes⟩ | ⟨rfl, htypes⟩ | ⟨rfl, htypes⟩ |
    ⟨rfl, htypes⟩ | ⟨rfl, htypes⟩ | ⟨rfl, htypes⟩
  · obtain ⟨value, rfl, hvalue⟩ := hsetter _ htypes
    exact .inl ⟨.state, value, rfl, hvalue, by decide, rfl⟩
  · obtain ⟨value, rfl, hvalue⟩ := hsetter _ htypes
    exact .inl ⟨.volume, value, rfl, hvalue, by decide, rfl⟩
  · exact .inr (.inl ⟨_, ⟨"stop", by decide, rfl⟩, by decide, rfl⟩)
  · exact .inr (.inl ⟨_, ⟨"play", by decide, rfl⟩, by decide, rfl⟩)
  · exact .inr (.inl ⟨_, ⟨"pause", by decide, rfl⟩, by decide, rfl⟩)
  · refine .inr (.inl ⟨if o.attributeValues "state" = .str "play" then .str "pause" else .str "play",
      ?_, by decide, ?_⟩)
    · split_ifs
      · exact ⟨"pause", by decide, rfl⟩
      · exact ⟨"play", by decide, rfl⟩
    · have hstate : o.getAttribute "state" = .ok (o.attributeValues "state") :=
        NetObject.getAttribute_eq_ok_iff.mpr ⟨⟨Music.state, by rw [hclazz]; rfl⟩, rfl⟩
      simp only [PluginType.onAction, Music.stateSwitch, hstate]
      rfl
  · obtain rfl := hnone htypes
    refine .inr (.inr ⟨rfl, _, ?_, .inl rfl, rfl⟩)
    intro n hmin hmax
    simp only [Music.volumeInterval]
    split_ifs <;> omega
  · obtain rfl := hnone htypes
    refine .inr (.inr ⟨rfl, _, ?_, .inr rfl, rfl⟩)
    intro n hmin hmax
    simp only [Music.volumeInterval]
    split_ifs <;> omega

/-! ## Steps of the volume -/

/-- The writing of an integer has digits and a sign in it, no letters. -/
theorem notMem_toString {c : Char} (hc : 57 < c.toNat) (n : Int) : c ∉ (toString n).toList := by
  have hdigits : ∀ m : Nat, c ∉ m.repr.toList := by
    intro m hm
    rw [Nat.toList_repr] at hm
    have hdigit := Nat.isDigit_of_mem_toDigits (by decide) (by decide) hm
    have hrange : 48 ≤ c.toNat ∧ c.toNat ≤ 57 := Char.isDigit_iff_toNat.mp hdigit
    omega
  cases n with
  | ofNat n => exact hdigits n
  | negSucc n =>
    have hn : (toString (Int.negSucc n)).toList = '-' :: (n + 1).repr.toList := by
      change ("-" ++ (n + 1).repr).toList = _
      simp
    rw [hn, List.mem_cons, not_or]
    refine ⟨?_, hdigits _⟩
    rintro rfl
    simp at hc

/-- An integer has no radix in its writing. -/
theorem parseIntAuto_toString (n : Int) : Music.parseIntAuto (toString n) = some n := by
  have hx : ∀ cs x rest, (toString n).toList = cs ++ x :: rest → ¬(x = 'x' ∨ x = 'X') := by
    rintro cs x rest heq (rfl | rfl)
    · have hc : 57 < 'x'.toNat := by decide
      exact notMem_toString hc n (by rw [heq]; simp)
    · have hc : 57 < 'X'.toNat := by decide
      exact notMem_toString hc n (by rw [heq]; simp)
  unfold Music.parseIntAuto
  rw [dropWhile_toString]
  split
  · rename_i x cs heq
    rw [if_neg (hx ['0'] x cs heq), parseInt_toString]
  · rename_i x cs heq
    rw [if_neg (hx ['+', '0'] x cs heq), parseInt_toString]
  · rename_i x cs heq
    rw [if_neg (hx ['-', '0'] x cs heq), parseInt_toString]
  · exact parseInt_toString n

variable {bounded : Int → Int} {o : NetObject}

theorem volumeStep_eq (hclazz : o.clazz = Music.clazz) : Music.volumeStep bounded o =
    .ok [.setAttribute "volume" (.num (match Music.parseIntAuto (o.attributeValues "volume").text with
      | none => .nan
      | some n => .int (bounded n)))] := by
  have hget : o.getAttribute "volume" = .ok (o.attributeValues "volume") :=
    NetObject.getAttribute_eq_ok_iff.mpr ⟨⟨Music.volume, by rw [hclazz]; rfl⟩, rfl⟩
  rw [Music.volumeStep, hget]
  rfl

/-- The step from a volume leads to a volume, and from `null` to `NaN`. -/
theorem volumeStep_cases (hclazz : o.clazz = Music.clazz)
    (hbounded : ∀ n, 0 ≤ n → n ≤ 100 → 0 ≤ bounded n ∧ bounded n ≤ 100)
    (h : Music.volume.Holds (o.attributeValues "volume")) :
    ∃ value, Music.volumeStep bounded o = .ok [.setAttribute "volume" value] ∧
      checkArg value Music.volume = .ok () ∧
      (Music.volume.Member value ↔ o.attributeValues "volume" ≠ .null) ∧ value ≠ .null := by
  rw [volumeStep_eq hclazz]
  refine ⟨_, rfl, ?_⟩
  rcases h with hnull | ⟨n, hmin, hmax, hvalue⟩
  · have hnan : Music.parseIntAuto (o.attributeValues "volume").text = none := by
      rw [hnull]
      decide
    rw [hnan]
    refine ⟨checkArg_of_falsy rfl, ?_, by simp⟩
    simp [hnull, Music.volume, netRange, NetType.Member]
  · have htext : (o.attributeValues "volume").text = toString n := by
      rcases hvalue with hvalue | hvalue <;> rw [hvalue] <;> rfl
    rw [htext, parseIntAuto_toString]
    have hmember : Music.volume.Member (.num (.int (bounded n))) :=
      ⟨bounded n, (hbounded n hmin hmax).1, (hbounded n hmin hmax).2, .inl rfl⟩
    refine ⟨hmember.checkArg, iff_of_true hmember ?_, by simp⟩
    rcases hvalue with hvalue | hvalue <;> rw [hvalue] <;> simp

/-! ## Runs -/

/-- The event steps the volume. -/
def Event.StepsVolume (e : Event) : Prop := e = .action "volume-more" [] ∨ e = .action "volume-less" []

/-- What an event may come to: the object stays as it is, or one attribute is set. -/
def Sets (m : MusicPlayer) (e : Event) (o : NetObject) : Prop :=
  o = m.object ∧ m.Careful e ∧ ¬e.StepsVolume ∨
    ∃ timer value, o = m.object.assign (Music.timerAttribute timer) value ∧
      ((timerType timer).Holds value ↔ m.Careful e) ∧
      (e.StepsVolume → timer = .volume ∧ value ≠ .null)

theorem stepsVolume_action {args : List JsValue} : (Event.action name args).StepsVolume ↔
    (name = "volume-more" ∨ name = "volume-less") ∧ args = [] := by
  simp [Event.StepsVolume, or_and_right]

theorem Inv.expire_cases (h : m.Inv) (timer : Timer) : ∃ m', m.expire timer = .ok m' ∧ m.Sets (.expired timer) m'.object ∧
    Checked m'.timeouts := by
  have hno : ¬(Event.expired timer).StepsVolume := by simp [Event.StepsVolume]
  unfold expire
  cases hpending : m.timeouts timer with
  | none => exact ⟨m, rfl, .inl ⟨rfl, by simp [Careful, hpending], hno⟩, h.pending⟩
  | some value =>
    have hvalue := h.pending timer value hpending
    have hnot : (timerType timer).Holds value ↔ ¬(timerType timer).Slips value := by
      refine ⟨fun hholds hslips => hslips.not_holds hholds, fun hnot => ?_⟩
      exact (checkArg_eq_ok_iff.mp hvalue).resolve_right hnot
    simp only [perform_setAttribute timer h.clazz hvalue]
    refine ⟨_, rfl, .inr ⟨timer, value, rfl, ?_, fun hsteps => absurd hsteps hno⟩, ?_⟩
    · simpa [Careful, hpending] using hnot
    · intro t v ht
      by_cases heq : t = timer
      · simp [heq] at ht
      · exact h.pending t v (by simpa [heq] using ht)

theorem executeAction_eq {args : List JsValue} {call : PluginCall}
    (hcheck : m.object.checkAction name args = .ok ())
    (hcalls : PluginType.music.onAction m.object name args = .ok [call]) :
    m.executeAction name args = m.perform call := by
  unfold executeAction
  rw [hcheck, hcalls]
  change List.foldlM perform m [call] = m.perform call
  rw [List.foldlM_cons]
  exact bind_pure _

theorem executeAction_cases {args : List JsValue} (h : m.Inv)
    (hcheck : m.object.checkAction name args = .ok ()) : ∃ m', m.executeAction name args = .ok m' ∧
      m.Sets (.action name args) m'.object ∧ Checked m'.timeouts := by
  rcases onAction_cases h.clazz hcheck with ⟨timer, value, rfl, hvalue, _, hcalls⟩ |
    ⟨value, hmember, hname, hcalls⟩ | ⟨rfl, bounded, hbounded, hname, hcalls⟩
  · rw [executeAction_eq hcheck hcalls]
    refine ⟨_, rfl, .inl ⟨rfl, by simp [Careful], by simp [stepsVolume_action]⟩, ?_⟩
    intro t v ht
    by_cases heq : t = timer
    · subst heq
      obtain rfl : value = v := by simpa using ht
      exact hvalue
    · exact h.pending t v (by simpa [heq] using ht)
  · have hperform : m.perform (.setAttribute "state" value) = _ :=
      perform_setAttribute .state h.clazz hmember.checkArg
    rw [executeAction_eq hcheck hcalls, hperform]
    refine ⟨_, rfl, .inr ⟨.state, value, rfl, iff_of_true (.inr hmember) ?_, ?_⟩, h.pending⟩
    · rintro (rfl | rfl)
      · exact absurd rfl hname.1
      · exact absurd rfl hname.2
    · rw [stepsVolume_action]
      rintro ⟨rfl | rfl, _⟩
      · exact absurd rfl hname.1
      · exact absurd rfl hname.2
  · obtain ⟨value, hstep, hvalue, hmember, hnull⟩ := volumeStep_cases h.clazz hbounded h.within.volume
    have hperform : m.perform (.setAttribute "volume" value) = _ :=
      perform_setAttribute .volume h.clazz hvalue
    rw [executeAction_eq hcheck (hcalls.trans hstep), hperform]
    refine ⟨_, rfl, .inr ⟨.volume, value, rfl, ?_, fun _ => ⟨rfl, hnull⟩⟩, h.pending⟩
    have hholds : Music.volume.Holds value ↔ Music.volume.Member value := or_iff_right hnull
    change Music.volume.Holds value ↔ _
    rw [hholds, hmember]
    exact ⟨fun hne _ _ => hne, fun hcareful => hcareful hname rfl⟩

/-- No exception leaves a timer, and one that leaves an action leaves the player as it was. -/
theorem step_cases (h : m.Inv) (hstep : m.Step e m') :
    m.Sets e m'.object ∧ Checked m'.timeouts := by
  have hok : ∀ {m₁}, m.handle e = .ok m₁ → m' = m₁ := by
    intro m₁ hok
    rw [Step, hok] at hstep
    exact hstep
  cases e with
  | expired timer =>
    obtain ⟨m₁, h₁, hsets, hchecked⟩ := h.expire_cases timer
    obtain rfl := hok h₁
    exact ⟨hsets, hchecked⟩
  | action name args =>
    cases hcheck : m.object.checkAction name args with
    | ok u =>
      obtain ⟨m₁, h₁, hsets, hchecked⟩ := executeAction_cases h hcheck
      obtain rfl := hok h₁
      exact ⟨hsets, hchecked⟩
    | error exc =>
      have herror : m.handle (.action name args) = .error exc := by
        rw [handle, executeAction, hcheck]
        rfl
      rw [Step, herror] at hstep
      obtain rfl := hstep
      -- a step of the volume is no call that is rejected
      have hno : ¬(Event.action name args).StepsVolume := by
        rw [stepsVolume_action]
        rintro ⟨hname, rfl⟩
        have hclazz : m'.object.clazz = (netObject "" Music.clazz).clazz := h.clazz
        rw [NetObject.checkAction_congr hclazz] at hcheck
        have hmore : (netObject "" Music.clazz).checkAction "volume-more" [] = .ok () := by decide
        have hless : (netObject "" Music.clazz).checkAction "volume-less" [] = .ok () := by decide
        rcases hname with rfl | rfl
        · exact absurd (hcheck.symm.trans hmore) (by simp)
        · exact absurd (hcheck.symm.trans hless) (by simp)
      refine ⟨.inl ⟨rfl, fun hname hargs => ?_, hno⟩, h.pending⟩
      exact absurd (stepsVolume_action.mpr ⟨hname, hargs⟩) hno

theorem leaves_iff (h : m.Inv) (hstep : m.Step e m') : m'.Leaves e ↔ m.Careful e := by
  obtain ⟨⟨hobject, hcareful, hno⟩ | ⟨timer, value, hobject, hvalue, hsteps⟩, _⟩ :=
    step_cases h hstep
  · refine iff_of_true ⟨?_, fun hyes => absurd hyes hno⟩ hcareful
    rw [within_iff, hobject]
    exact within_iff.mp h.within
  · rw [Leaves, within_assign h.within hobject, hvalue, and_iff_left_iff_imp]
    intro hcareful hyes
    obtain ⟨rfl, hnull⟩ := hsteps hyes
    have hvolume : m'.volume = value := by
      rw [volume, hobject]
      exact NetObject.assign_self
    rw [hvolume]
    exact (hvalue.mpr hcareful).resolve_left hnull

theorem Inv.step (h : m.Inv) (hstep : m.Step e m') (hleaves : m'.Leaves e) : m'.Inv := by
  obtain ⟨⟨hobject, _⟩ | ⟨timer, value, hobject, _⟩, hpending⟩ := step_cases h hstep
  · exact ⟨hleaves.1, by rw [hobject, h.clazz], hpending⟩
  · exact ⟨hleaves.1, by rw [hobject, NetObject.assign_clazz, h.clazz], hpending⟩

theorem exists_create (id : String) : ∃ m, create id = .ok m ∧ m.Inv := by
  refine ⟨_, rfl, ⟨.inr ⟨0, by decide, by decide, .inr rfl⟩, .inr ⟨"stop", by decide, rfl⟩⟩, rfl, ?_⟩
  intro timer value hvalue
  simp at hvalue

/-- The runs in which the values stay in the space are the careful ones. -/
theorem leaves_run_iff (id : String) : ∃ m, create id = .ok m ∧ ∀ events m',
    Steps (fun m e m' => Step m e m' ∧ Leaves e m') m events m' ↔
      Steps (guarded Careful Step) m events m' := by
  obtain ⟨m, hcreate, hinv⟩ := exists_create id
  refine ⟨m, hcreate, fun events m' => steps_and_iff_guarded (P := Inv) ?_ ?_ hinv⟩
  · intro m e m' h hstep hleaves
    exact h.step hstep hleaves
  · intro m e m' h hstep
    exact leaves_iff h hstep

/-- The volume is set to `null`, as by a link whose source is away, and then raised. -/
def raisedFromNull : List Event :=
  [.action "setvolume" [.null], .expired .volume, .action "volume-more" []]

theorem not_leaves_raisedFromNull : ¬∀ (id : String) (m m' : MusicPlayer) (events : List Event),
    create id = .ok m → Steps Step m events m' →
      Steps (fun m e m' => Step m e m' ∧ Leaves e m') m events m' := by
  intro h
  have hcreate : create "a" = .ok ⟨((netObject "a" Music.clazz).assign "state" (.str "stop")).assign
    "volume" (.str "0"), fun _ => none⟩ := rfl
  have hall := h "a" _ _ raisedFromNull hcreate (.cons rfl (.cons rfl (.cons rfl (.nil _))))
  simp only [raisedFromNull, steps_cons_iff] at hall
  obtain ⟨m₁, ⟨h₁, _⟩, m₂, ⟨h₂, _⟩, m₃, ⟨h₃, hleaves⟩, _⟩ := hall
  have hnan : m₃.volume = .num .nan := by
    rw [h₃, h₂, h₁]
    rfl
  have hmember := hleaves.2 (.inl rfl)
  rw [hnan] at hmember
  simp [Music.volume, netRange, NetType.Member] at hmember

end MusicPlayer

end MyLifeHome
