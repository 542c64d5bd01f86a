import MyLifeHome.Irc.Meeting
import MyLifeHome.Irc.Streams

/-!
# A mesh of hubs

Hubs with links between them, and the messages that are on the way. What the hubs know stays
consistent while they read messages in any order, get clients and lose them, and open links.
-/
namespace MyLifeHome.Irc

open Checked Replication TreeRouting

/-- The hubs, the ends of links that have been opened, and what is written and not read. -/
structure Mesh (V : Type) where
  hub : V → Hub
  up : V → V → Prop
  pending : V → V → List Message

variable [Locale] {V : Type} [DecidableEq V] {L : Layout V} {b g h k : V}

/-- The hub may have written to its neighbours. -/
def Hub.Addresses (hub : Hub) (L : Layout V) (h : V) (hub' : Hub) : Prop :=
  ∀ g, L.graph.Adj h g → ∃ ms, hub.Writes (L.link h g) ms hub'

theorem Hub.Turns.addresses {hub hub' : Hub} {w w' : View V} {src : Option Conn} {X : Set V}
    (ht : hub.Turns L h w src X hub' w') : hub.Addresses L h hub' := by
  intro g hg
  obtain ⟨ms, _, hw, _⟩ := ht.told g hg
  exact ⟨ms, hw⟩

omit [Locale] in
theorem Hub.Writes.written_eq {hub hub' : Hub} {d : Conn} {ms : List Message}
    (hw : hub.Writes d ms hub') : hub.written hub' d = ms := by
  obtain ⟨out, hsent, rfl⟩ := hw
  rw [Hub.written, hsent, List.drop_left]

namespace Mesh

/-- A hub has done something. -/
def act (m : Mesh V) (L : Layout V) (h : V) (hub' : Hub) : Mesh V where
  hub := Function.update m.hub h hub'
  up := m.up
  pending b g := if b = h then m.pending b g ++ (m.hub h).written hub' (L.link h g) else m.pending b g

/-- The first message from the one to the other has been read. -/
def take (m : Mesh V) (k h : V) : Mesh V :=
  { m with pending := fun b g => if b = k ∧ g = h then (m.pending b g).tail else m.pending b g }

/-- One end of a link has been opened. -/
def openEnd (m : Mesh V) (b g : V) : Mesh V :=
  { m with up := fun x y => m.up x y ∨ x = b ∧ y = g }

/-- For the one, the other is at the end of their link. -/
def Live (m : Mesh V) (L : Layout V) (b g : V) : Prop :=
  L.graph.Adj b g ∧ ∃ s, (m.hub b).structures (L.link b g) = .server s

section Fields

variable {m : Mesh V} {hub' : Hub}

section

omit [Locale]

@[simp] theorem act_hub_self : (m.act L h hub').hub h = hub' := Function.update_self ..

theorem act_hub_of_ne (hne : b ≠ h) : (m.act L h hub').hub b = m.hub b := Function.update_of_ne hne ..

theorem act_pending_self : (m.act L h hub').pending h g =
    m.pending h g ++ (m.hub h).written hub' (L.link h g) := if_pos rfl

theorem act_pending_of_ne (hne : b ≠ h) : (m.act L h hub').pending b g = m.pending b g := if_neg hne

end

end Fields

variable {m : Mesh V} {view : V → View V} {queue queue' : V → V → List (Update V)}
  {pending pending' : V → V → List Message} {live up : V → V → Prop}

/-! ## What is on the way -/

/-- The messages on the links are the updates that are on the way. A hub that has opened a link has
said hello on it, and the other hub answers before it tells of anything else. -/
structure Carries (L : Layout V) (live up : V → V → Prop) (pending : V → V → List Message)
    (queue : V → V → List (Update V)) : Prop where
  opened : ∀ b g, live b g → L.graph.Adj b g ∧ up b g ∧ up g b
  homes : ∀ b g, live b g → ∀ a ∈ queue b g, a.homes ⊆ side L.graph b g
  both : ∀ b g, live b g → live g b → List.Forall₂ (Update.Announced L) (pending b g) (queue b g)
  answered : ∀ b g, live b g → ¬live g b → L.dials b g = false ∧ ∃ m ms as, pending b g = m :: ms ∧
    queue b g = .hello b :: as ∧ Greets L b m ∧ List.Forall₂ (Update.Announced L) ms as
  greeted : ∀ b g, L.graph.Adj b g → ¬live b g → ¬live g b → up b g → L.dials b g →
    ∃ m, pending b g = [m] ∧ Greets L b m
  silent : ∀ b g, L.graph.Adj b g → ¬live b g → (live g b ∨ ¬up b g ∨ L.dials b g = false) →
    pending b g = []

namespace Carries

/-- A hub has written to those who hear of it. -/
theorem write (hc : Carries L live up pending queue) (ms : V → List Message)
    (as : V → List (Update V)) (hms : ∀ g, L.graph.Adj h g → List.Forall₂ (Update.Announced L) (ms g) (as g))
    (hhomes : ∀ g, live h g → ∀ a ∈ as g, a.homes ⊆ side L.graph h g)
    (hdeaf : ∀ g, L.graph.Adj h g → ¬live h g → as g = [])
    (hpending : ∀ b g, L.graph.Adj b g → pending' b g = if b = h then pending b g ++ ms g else pending b g)
    (hqueue : ∀ b g, queue' b g = if b = h then queue b g ++ as g else queue b g) :
    Carries L live up pending' queue' := by
  have hquiet : ∀ b g, L.graph.Adj b g → ¬live b g → pending' b g = pending b g := by
    intro b g hadj hlive
    rw [hpending b g hadj]
    split_ifs with hb
    · subst hb
      have hnone := hms g hadj
      rw [hdeaf g hadj hlive] at hnone
      rw [List.forall₂_nil_right_iff.mp hnone, List.append_nil]
    · rfl
  refine ⟨hc.opened, ?_, ?_, ?_, ?_, ?_⟩
  · intro b g hlive a ha
    rw [hqueue] at ha
    split_ifs at ha with hb
    · subst hb
      exact (List.mem_append.mp ha).elim (hc.homes b g hlive a) (hhomes g hlive a)
    · exact hc.homes b g hlive a ha
  · intro b g hlive hback
    have hadj := (hc.opened b g hlive).1
    rw [hpending b g hadj, hqueue]
    split_ifs with hb
    · subst hb
      exact List.rel_append (hc.both b g hlive hback) (hms g hadj)
    · exact hc.both b g hlive hback
  · intro b g hlive hback
    have hadj := (hc.opened b g hlive).1
    obtain ⟨hdials, m, ms', as', hm, ha, hgreets, hann⟩ := hc.answered b g hlive hback
    rw [hpending b g hadj, hqueue]
    split_ifs with hb
    · subst hb
      exact ⟨hdials, m, ms' ++ ms g, as' ++ as g, by rw [hm, List.cons_append],
        by rw [ha, List.cons_append], hgreets, List.rel_append hann (hms g hadj)⟩
    · exact ⟨hdials, m, ms', as', hm, ha, hgreets, hann⟩
  · intro b g hadj hlive hback
    rw [hquiet b g hadj hlive]
    exact hc.greeted b g hadj hlive hback
  · intro b g hadj hlive
    rw [hquiet b g hadj hlive]
    exact hc.silent b g hadj hlive

/-- A message on a link that both hubs have has been read. -/
theorem pop (hc : Carries L live up pending queue) (hlive : live k h) (hback : live h k)
    {m : Message} {ms : List Message} {a : Update V} {as : List (Update V)}
    (hm : pending k h = m :: ms) (ha : queue k h = a :: as)
    (hpending : ∀ b g, pending' b g = if b = k ∧ g = h then ms else pending b g)
    (hqueue : ∀ b g, queue' b g = if b = k ∧ g = h then as else queue b g) :
    Carries L live up pending' queue' := by
  have hboth := hc.both k h hlive hback
  rw [hm, ha] at hboth
  have hkept : ∀ {b g}, ¬(live b g ∧ live g b) → pending' b g = pending b g ∧ queue' b g = queue b g := by
    intro b g hnot
    have hne : ¬(b = k ∧ g = h) := by
      rintro ⟨rfl, rfl⟩
      exact hnot ⟨hlive, hback⟩
    rw [hpending, hqueue, if_neg hne, if_neg hne]
    exact ⟨rfl, rfl⟩
  refine ⟨hc.opened, fun b g hl x hx => hc.homes b g hl x ?_, fun b g hl hb => ?_, ?_, ?_, ?_⟩
  · rw [hqueue] at hx
    split_ifs at hx with hbg
    · obtain ⟨rfl, rfl⟩ := hbg
      exact ha ▸ List.mem_cons_of_mem a hx
    · exact hx
  · rw [hpending, hqueue]
    split_ifs
    · exact (List.forall₂_cons.mp hboth).2
    · exact hc.both b g hl hb
  · intro b g hl hb
    obtain ⟨hp, hq⟩ := hkept fun hand => hb hand.2
    rw [hp, hq]
    exact hc.answered b g hl hb
  · intro b g hadj hl hb
    rw [(hkept fun hand => hl hand.1).1]
    exact hc.greeted b g hadj hl hb
  · intro b g hadj hl hb
    rw [(hkept fun hand => hl hand.1).1]
    exact hc.silent b g hadj hl hb

omit [DecidableEq V] in
/-- Of a link that only one of the two hubs may have, the other has read the hello. -/
theorem hello (hc : Carries L live up pending queue) (hadj : L.graph.Adj k h) (hdead : ¬live h k)
    {m : Message} {ms : List Message} (hm : pending k h = m :: ms) : up k h ∧ Greets L k m ∧
      (live k h → L.dials k h = false ∧ ∃ as, queue k h = .hello k :: as ∧
        List.Forall₂ (Update.Announced L) ms as) ∧
      (¬live k h → L.dials k h ∧ ms = []) := by
  by_cases hlive : live k h
  · obtain ⟨hdials, m', ms', as, hm', ha, hgreets, hann⟩ := hc.answered k h hlive hdead
    obtain ⟨rfl, rfl⟩ := List.cons.inj (hm.symm.trans hm')
    exact ⟨(hc.opened k h hlive).2.1, hgreets, fun _ => ⟨hdials, as, ha, hann⟩,
      fun hno => absurd hlive hno⟩
  · have hnonempty : pending k h ≠ [] := by simp [hm]
    have hup : up k h := by
      by_contra hno
      exact hnonempty (hc.silent k h hadj hlive (.inr (.inl hno)))
    have hdials : L.dials k h := by
      by_contra hno
      exact hnonempty (hc.silent k h hadj hlive (.inr (.inr (by simpa using hno))))
    obtain ⟨m', hm', hgreets⟩ := hc.greeted k h hadj hlive hdead hup hdials
    obtain ⟨rfl, rfl⟩ := List.cons.inj (hm.symm.trans hm')
    exact ⟨hup, hgreets, fun hyes => absurd hyes hlive, fun _ => ⟨hdials, rfl⟩⟩

/-- The link is there for both, or will be when the other hub reads the answer. -/
theorem meet (hc : Carries L live up pending queue) (hL : L.Proper) (hadj : L.graph.Adj k h)
    (hdead : ¬live h k) (hup : up h k) {m : Message} {rest : List Message}
    (hm : pending k h = m :: rest) {hello ms : List Message} {as : List (Update V)}
    (hhello : List.Forall₂ (fun m v => Greets L v m) hello (if !L.dials h k then [h] else []))
    (hms : List.Forall₂ (Update.Announced L) ms as) (hhomes : ∀ a ∈ as, a.homes ⊆ side L.graph h k)
    {live' : V → V → Prop} (hlive' : ∀ x y, live' x y ↔ live x y ∨ x = h ∧ y = k)
    (hthere : pending' h k = pending h k ++ (hello ++ ms)) (hback : pending' k h = rest)
    (hpending : ∀ b g, L.graph.Adj b g → ¬(b = h ∧ g = k) → ¬(b = k ∧ g = h) →
      pending' b g = pending b g)
    (hfirst : ¬live k h → queue' h k = .hello h :: as) (hsecond : live k h → queue' h k = as)
    (htail : queue' k h = (queue k h).tail)
    (hqueue : ∀ b g, ¬(b = h ∧ g = k) → ¬(b = k ∧ g = h) → queue' b g = queue b g) :
    Carries L live' up pending' queue' := by
  obtain ⟨hupback, _, hanswer, hopener⟩ := hc.hello hadj hdead hm
  have hkh : k ≠ h := hadj.ne
  have hdials := hL.dials h k hadj.symm
  have hnone : pending h k = [] := by
    refine hc.silent h k hadj.symm hdead ?_
    by_cases hlive : live k h
    · exact .inl hlive
    · exact .inr (.inr (by rw [hdials, (hopener hlive).1, Bool.not_true]))
  have hlivek : live' k h ↔ live k h := by simp [hlive', hkh]
  have hliveh : live' h k := (hlive' h k).mpr (.inr ⟨rfl, rfl⟩)
  -- the other links are as before
  have hsame : ∀ {b g}, ¬(b = h ∧ g = k) → (live' b g ↔ live b g) := fun hne => by
    simp [hlive', hne]
  have hswap : ∀ {b g : V}, ¬(b = k ∧ g = h) → ¬(g = h ∧ b = k) := fun hne hand => hne ⟨hand.2, hand.1⟩
  refine ⟨?_, ?_, ?_, ?_, ?_, ?_⟩
  · intro b g hl
    rcases (hlive' b g).mp hl with hl | ⟨rfl, rfl⟩
    · exact hc.opened b g hl
    · exact ⟨hadj.symm, hup, hupback⟩
  · intro b g hl a ha
    by_cases hbg : b = h ∧ g = k
    · obtain ⟨rfl, rfl⟩ := hbg
      by_cases hlive : live g b
      · exact hhomes a (hsecond hlive ▸ ha)
      · rw [hfirst hlive] at ha
        rcases List.mem_cons.mp ha with rfl | ha
        · exact Set.singleton_subset_iff.mpr mem_side_self
        · exact hhomes a ha
    · have hlbg := (hsame hbg).mp hl
      refine hc.homes b g hlbg a ?_
      by_cases hgb : b = k ∧ g = h
      · obtain ⟨rfl, rfl⟩ := hgb
        exact List.mem_of_mem_tail (htail ▸ ha)
      · exact hqueue b g hbg hgb ▸ ha
  · intro b g hl hb
    by_cases hbg : b = h ∧ g = k
    · obtain ⟨rfl, rfl⟩ := hbg
      obtain ⟨hdialsk, _⟩ := hanswer (hlivek.mp hb)
      rw [hdials, hdialsk] at hhello
      obtain rfl := List.forall₂_nil_right_iff.mp hhello
      rw [hthere, hnone, hsecond (hlivek.mp hb)]
      exact hms
    · by_cases hgb : b = k ∧ g = h
      · obtain ⟨rfl, rfl⟩ := hgb
        obtain ⟨_, as', hqueue', hann⟩ := hanswer (hlivek.mp hl)
        rw [hback, htail, hqueue']
        exact hann
      · rw [hpending b g (hc.opened b g ((hsame hbg).mp hl)).1 hbg hgb, hqueue b g hbg hgb]
        exact hc.both b g ((hsame hbg).mp hl) ((hsame (hswap hgb)).mp hb)
  · intro b g hl hb
    by_cases hbg : b = h ∧ g = k
    · obtain ⟨rfl, rfl⟩ := hbg
      have hlive : ¬live g b := fun hyes => hb (hlivek.mpr hyes)
      rw [hdials, (hopener hlive).1] at hhello ⊢
      obtain ⟨m', ms', hgreets, hms', rfl⟩ := List.forall₂_cons_right_iff.mp hhello
      obtain rfl := List.forall₂_nil_right_iff.mp hms'
      exact ⟨rfl, m', ms, as, by rw [hthere, hnone]; rfl, hfirst hlive, hgreets, hms⟩
    · by_cases hgb : b = k ∧ g = h
      · obtain ⟨rfl, rfl⟩ := hgb
        exact absurd hliveh hb
      · rw [hpending b g (hc.opened b g ((hsame hbg).mp hl)).1 hbg hgb, hqueue b g hbg hgb]
        exact hc.answered b g ((hsame hbg).mp hl) fun hyes => hb ((hsame (hswap hgb)).mpr hyes)
  · intro b g hbadj hl hb
    have hbg : ¬(b = h ∧ g = k) := by
      rintro ⟨rfl, rfl⟩
      exact hl hliveh
    have hgb : ¬(b = k ∧ g = h) := by
      rintro ⟨rfl, rfl⟩
      exact hb hliveh
    rw [hpending b g hbadj hbg hgb]
    exact hc.greeted b g hbadj (fun hyes => hl ((hsame hbg).mpr hyes))
      fun hyes => hb ((hsame (hswap hgb)).mpr hyes)
  · intro b g hbadj hl hb
    have hbg : ¬(b = h ∧ g = k) := by
      rintro ⟨rfl, rfl⟩
      exact hl hliveh
    by_cases hgb : b = k ∧ g = h
    · obtain ⟨rfl, rfl⟩ := hgb
      rw [hback]
      exact (hopener fun hyes => hl (hlivek.mpr hyes)).2
    · rw [hpending b g hbadj hbg hgb]
      exact hc.silent b g hbadj (fun hyes => hl ((hsame hbg).mpr hyes))
        (hb.imp_left (hsame (hswap hgb)).mp)

end Carries

/-! ## Hubs that are in tune -/

/-- Nothing is known of what is not linked, but who has said hello. -/
def Dark (L : Layout V) (live : V → V → Prop) (view : V → View V) : Prop :=
  ∀ b g, L.graph.Adj b g → ¬(live b g ∧ live g b) →
    (∀ v ∈ side L.graph b g, (view g v).known ↔ v = b ∧ live g b) ∧
    ∀ u : V × Conn, u.1 ∈ side L.graph b g → (view g).user u = none

/-- What the hubs know and what is on the way fit together. -/
structure Tuned (m : Mesh V) (L : Layout V) (view : V → View V) (queue : V → V → List (Update V)) :
    Prop where
  shows : ∀ h, (m.hub h).Shows L h (view h)
  consistent : Consistent (Update.updates L) L.graph (m.Live L) view queue
  carries : Carries L (m.Live L) m.up m.pending queue
  dark : Dark L (m.Live L) view

/-- What comes of a message on a link: the link is there for the hub that has read it, or nothing
goes back on it. -/
def Leads (m : Mesh V) (L : Layout V) (k h : V) (hub' : Hub) : Prop :=
  (¬m.Live L h k ∧ ∀ x y, (m.act L h hub').Live L x y ↔ m.Live L x y ∨ x = h ∧ y = k) ∨
    ((m.act L h hub').Live L = m.Live L ∧ (m.hub h).Writes (L.link h k) [] hub')

variable {hub' : Hub} {w' : View V} {src : Option Conn} {X : Set V} {queue₀ : V → V → List (Update V)}

omit [Locale] in
theorem live_act (hframe : ∀ g, L.graph.Adj h g →
    hub'.structures (L.link h g) = (m.hub h).structures (L.link h g)) :
    (m.act L h hub').Live L = m.Live L := by
  funext b g
  refine propext (and_congr_right fun hadj => ?_)
  by_cases hb : b = h
  · subst hb
    rw [act_hub_self, hframe g hadj]
  · rw [act_hub_of_ne hb]

omit [Locale] [DecidableEq V] in
theorem hears_iff (hadj : L.graph.Adj h g) :
    (m.hub h).Hears src (L.link h g) ↔ some (L.link h g) ≠ src ∧ m.Live L h g := by
  simp [Hub.Hears, Live, hadj]

/-- A hub has come to another view and has told those who hear of it. What it has read before is
taken from the queues. -/
theorem tuned_act (hshows : ∀ h, (m.hub h).Shows L h (view h))
    (hcons : Consistent (Update.updates L) L.graph (m.Live L) view queue)
    (hc : Carries L (m.Live L) m.up m.pending queue₀) (hdark : Dark L (m.Live L) view)
    (hturns : (m.hub h).Turns L h (view h) src X hub' w')
    (hsame : ∀ b g, g ≠ h → queue₀ b g = queue b g)
    (hin : ∀ k, m.Live L k h → ∃ read, queue k h = read ++ queue₀ k h ∧
      Set.EqOn ((Update.updates L).applyAll read (view h)) w' (side L.graph k h))
    (hX : ∀ g, m.Live L h g → some (L.link h g) ≠ src → X ⊆ side L.graph h g)
    (hdeaf : ∀ g, m.Live L h g → some (L.link h g) = src → Set.EqOn (view h) w' (side L.graph h g))
    (hfar : ∀ b, L.graph.Adj b h → ¬(m.Live L b h ∧ m.Live L h b) →
      Set.EqOn w' (view h) (side L.graph b h)) :
    ∃ queue', (m.act L h hub').Tuned L (Function.update view h w') queue' := by
  have htold := hturns.told
  choose! ms as hwrites hann hhomes hno hall using htold
  have hlive := live_act hturns.frame
  set queue' : V → V → List (Update V) := fun b g => if b = h then queue₀ b g ++ as g else queue₀ b g
    with hqueue'
  have hself : ∀ g, queue' h g = queue₀ h g ++ as g := fun g => if_pos rfl
  have hother : ∀ b g, b ≠ h → queue' b g = queue₀ b g := fun b g hb => if_neg hb
  refine ⟨queue', fun x => ?_, ?_, ?_, ?_⟩
  · by_cases hx : x = h
    · subst hx
      rw [act_hub_self, Function.update_self]
      exact hturns.shows
    · rw [act_hub_of_ne hx, Function.update_of_ne hx]
      exact hshows x
  · rw [hlive]
    refine hcons.update (fun k hk => ?_) (fun k hk => ?_) (fun k l hk hl => ?_)
    · rw [hother k h hk.1.ne]
      exact hin k hk
    · have hadj := hk.1
      rw [hself, hsame h k hadj.ne.symm]
      refine ⟨as k, rfl, ?_⟩
      by_cases hsrc : some (L.link h k) = src
      · rw [hno k hadj fun hhears => hhears.1 hsrc]
        exact ⟨by simp, trivial, hdeaf k hk hsrc⟩
      · obtain ⟨hfits, happly⟩ := hall k hadj ((hears_iff hadj).mpr ⟨hsrc, hk⟩)
        refine ⟨fun a ha => ?_, hfits, fun v _ => by rw [happly]⟩
        exact Update.local_of_homes ((hhomes k hadj a ha).trans (hX k hk hsrc))
    · rw [hother k l hk, hsame k l hl]
  · rw [hlive]
    refine hc.write (h := h) ms as (fun g hg => hann g hg) (fun g hg a ha => ?_)
      (fun g hg hdead => ?_) (fun b g hadj => ?_) fun b g => rfl
    · by_cases hsrc : some (L.link h g) = src
      · rw [hno g hg.1 fun hhears => hhears.1 hsrc] at ha
        cases ha
      · exact (hhomes g hg.1 a ha).trans (hX g hg hsrc)
    · exact hno g hg fun hhears => hdead ((hears_iff hg).mp hhears).2
    · split_ifs with hb
      · subst hb
        rw [act_pending_self, (hwrites g hadj).written_eq]
      · rw [act_pending_of_ne hb]
  · intro b g hadj hdead
    rw [hlive] at hdead ⊢
    by_cases hg : g = h
    · subst hg
      have heq := hfar b hadj hdead
      rw [Function.update_self]
      obtain ⟨hknown, husers⟩ := hdark b g hadj hdead
      refine ⟨fun v hv => ?_, fun u hu => ?_⟩
      · rw [heq hv]
        exact hknown v hv
      · rw [Update.user_congr heq hu]
        exact husers u hu
    · rw [Function.update_of_ne hg]
      exact hdark b g hadj hdead

/-! ## Turns -/

/-- A client has done something. -/
theorem Tuned.client (ht : m.Tuned L view queue)
    (hturns : (m.hub h).Turns L h (view h) none {h} hub' w') :
    ∃ queue', (m.act L h hub').Tuned L (Function.update view h w') queue' := by
  have hback : ∀ {b}, L.graph.Adj b h → Set.EqOn w' (view h) (side L.graph b h) := by
    intro b hadj v hv
    refine hturns.outside fun hvh => ?_
    rw [Set.mem_singleton_iff.mp hvh] at hv
    exact notMem_side hadj.ne hv
  refine tuned_act ht.shows ht.consistent ht.carries ht.dark hturns (fun _ _ _ => rfl)
    (fun k hk => ⟨[], rfl, (hback hk.1).symm⟩) (fun g hg _ => ?_) (fun g _ hsrc => by cases hsrc)
    fun b hadj _ => hback hadj
  exact Set.singleton_subset_iff.mpr mem_side_self

omit [Locale] [DecidableEq V] in
/-- The sides of an edge are apart. -/
theorem side_disjoint_side (hG : L.graph.IsTree) (hadj : L.graph.Adj b g) :
    side L.graph b g ⊆ (side L.graph g b)ᶜ := fun _ hb hg => not_behind_both hG.isAcyclic hadj hg hb

/-- An announcement has been read. -/
theorem Tuned.relay (hcap : KeepsCapitals) (hL : L.Proper) (ht : m.Tuned L view queue)
    (hlive : m.Live L k h) (hback : m.Live L h k) {msg : Message} {rest : List Message}
    (hpending : m.pending k h = msg :: rest) : ∃ hub' view' queue',
      (m.hub h).receive (L.link h k) msg = .ok hub' ∧ (m.hub h).Addresses L h hub' ∧
      m.Leads L k h hub' ∧ ((m.take k h).act L h hub').Tuned L view' queue' := by
  obtain ⟨hadj, s, hstr⟩ := hback
  have hboth := ht.carries.both k h hlive ⟨hadj, s, hstr⟩
  rw [hpending] at hboth
  obtain ⟨a, as, hann, _, hqueue⟩ := List.forall₂_cons_left_iff.mp hboth
  obtain ⟨hfits, _⟩ := ht.consistent.head hlive hqueue
  have hhomes : a.homes ⊆ side L.graph k h := ht.carries.homes k h hlive a (by simp [hqueue])
  have hne : h ∉ a.homes := fun hin => notMem_side hadj.ne.symm (hhomes hin)
  obtain ⟨hub', hok, hturns⟩ := (ht.shows h).turns_relay hcap hL ⟨hadj, rfl, hstr⟩ hann hfits hne
  have hacyclic := hL.tree.isAcyclic
  have hkeep : ∀ {Y : Set V}, Y ⊆ (side L.graph k h)ᶜ → Set.EqOn (view h) (a.apply (view h)) Y := by
    intro Y hY v hv
    exact ((Update.local_of_homes (L := L) hhomes).outside (view h) (hY hv)).symm
  have hother : ∀ {b}, L.graph.Adj b h → b ≠ k → side L.graph b h ⊆ (side L.graph k h)ᶜ :=
    fun hb hbk => side_disjoint hacyclic hb hadj.symm hbk
  have htake : ∀ b g, (m.take k h).pending b g = if b = k ∧ g = h then rest else m.pending b g := by
    intro b g
    simp only [take]
    split_ifs with hbg
    · rw [hbg.1, hbg.2, hpending]
      rfl
    · rfl
  have hpop : Carries L ((m.take k h).Live L) m.up (m.take k h).pending
      fun b g => if b = k ∧ g = h then as else queue b g :=
    ht.carries.pop hlive ⟨hadj, s, hstr⟩ hpending hqueue htake fun _ _ => rfl
  obtain ⟨queue', htuned⟩ : ∃ queue', ((m.take k h).act L h hub').Tuned L
      (Function.update view h (a.apply (view h))) queue' := by
    refine tuned_act ht.shows ht.consistent hpop ht.dark hturns
      (fun b g hg => if_neg fun hand => hg hand.2) (fun b hb => ?_) (fun g hg hsrc => ?_)
      (fun g hg hsrc => ?_) fun b hb hdead => ?_
    · by_cases hbk : b = k
      · subst hbk
        refine ⟨[a], ?_, fun _ _ => rfl⟩
        rw [if_pos ⟨rfl, rfl⟩, hqueue]
        rfl
      · exact ⟨[], by simp [hbk], hkeep (hother hb.1 hbk)⟩
    · refine hhomes.trans (side_subset hacyclic hadj.symm hg.1 ?_)
      rintro rfl
      exact hsrc rfl
    · obtain rfl := hL.links h g k hg.1 hadj (Option.some.inj hsrc)
      exact hkeep (side_disjoint_side hL.tree hadj)
    · refine (hkeep (hother hb ?_)).symm
      rintro rfl
      exact hdead ⟨hlive, hadj, s, hstr⟩
  refine ⟨hub', _, queue', hok, hturns.addresses, .inr ⟨live_act hturns.frame, ?_⟩, htuned⟩
  -- nothing goes back
  obtain ⟨ms, as', hwrites, hann', _, hnone, _⟩ := hturns.told k hadj
  rw [hnone fun hhears => hhears.1 rfl] at hann'
  rwa [List.forall₂_nil_right_iff.mp hann'] at hwrites

/-- A hello has been read. -/
theorem Tuned.meet (hcap : KeepsCapitals) (hL : L.Proper) (ht : m.Tuned L view queue)
    (hadj : L.graph.Adj k h) (hdead : ¬m.Live L h k) (hup : m.up h k) {msg : Message}
    {rest : List Message} (hpending : m.pending k h = msg :: rest) : ∃ hub' view' queue',
      (m.hub h).receive (L.link h k) msg = .ok hub' ∧ (m.hub h).Addresses L h hub' ∧
      m.Leads L k h hub' ∧ ((m.take k h).act L h hub').Tuned L view' queue' := by
  classical
  have hkh : k ≠ h := hadj.ne
  have hacyclic := hL.tree.isAcyclic
  obtain ⟨_, hgreets, hanswer, _⟩ := ht.carries.hello hadj hdead hpending
  have hstr : (m.hub h).structures (L.link h k) = .new :=
    ((ht.shows h).ends k hadj.symm).2.resolve_right fun hserver => hdead ⟨hadj.symm, hserver⟩
  -- nothing is known of the other side
  obtain ⟨hdark, hdarkusers⟩ := ht.dark k h hadj fun hand => hdead hand.2
  have hunknown : ∀ v ∈ side L.graph k h, ¬(view h v).known := fun v hv hyes =>
    hdead ((hdark v hv).mp hyes).2
  have hnew : ¬(view h k).known := hunknown k mem_side_self
  have hfar : ∀ v, (view h v).known → v ∈ side L.graph h k := by
    intro v hv
    exact (behind_or_behind hL.tree hadj).resolve_right fun hbehind => hunknown v hbehind hv
  obtain ⟨hub', hok, hmeets⟩ := (ht.shows h).meets_receive hcap hL hadj.symm hstr hnew hfar hgreets
  have htold := hmeets.told
  choose! ms hwrites hno hall using htold
  obtain ⟨hello, ms₀, as₀, hwrites₀, hhello, hms₀, hhomes₀, hbrings⟩ := hmeets.brings
  rw [(ht.shows h).dials k hadj.symm] at hhello
  -- the others are told of the server
  obtain ⟨as, hlives, hdeads⟩ : ∃ as : V → List (Update V),
      (∀ g, m.Live L h g → as g = [.server k h]) ∧ ∀ g, ¬m.Live L h g → as g = [] :=
    ⟨fun g => if m.Live L h g then [.server k h] else [], fun g hg => if_pos hg, fun g hg => if_neg hg⟩
  set queue₁ : V → V → List (Update V) := fun b g => if b = h then queue b g ++ as g else queue b g
    with hqueue₁
  set pending₁ : V → V → List Message := fun b g =>
    if b = h then m.pending b g ++ Function.update ms k [] g else m.pending b g with hpending₁
  have hnotk : ∀ {g}, m.Live L h g → g ≠ k := by
    rintro g hg rfl
    exact hdead hg
  have hhomes : ∀ {g}, m.Live L h g → ∀ a ∈ as g, a.homes ⊆ side L.graph h g := by
    intro g hg a ha
    rw [hlives g hg, List.mem_singleton] at ha
    rw [ha]
    refine Set.insert_subset ?_ (Set.singleton_subset_iff.mpr mem_side_self)
    exact side_subset hacyclic hadj hg.1 (hnotk hg).symm mem_side_self
  have hc₁ : Carries L (m.Live L) m.up pending₁ queue₁ := by
    refine ht.carries.write _ as (fun g hg => ?_) (fun g hg => hhomes hg) (fun g _ => hdeads g)
      (fun _ _ _ => rfl) fun _ _ => rfl
    by_cases hgk : g = k
    · subst hgk
      rw [Function.update_self, hdeads g hdead]
      exact .nil
    · rw [Function.update_of_ne hgk]
      by_cases hlive : m.Live L h g
      · obtain ⟨m', hm', hann⟩ := hall g hg hgk ((hears_iff hg).mpr ⟨by simp, hlive⟩)
        rw [hm', hlives g hlive]
        exact .cons hann .nil
      · rw [hno g hg hgk fun hhears => hlive ((hears_iff hg).mp hhears).2, hdeads g hlive]
        exact .nil
  set queue' : V → V → List (Update V) := fun b g =>
    if b = h ∧ g = k then (if m.Live L k h then as₀ else .hello h :: as₀)
    else if b = k ∧ g = h then (queue₁ k h).tail else queue₁ b g with hqueue'
  have hthere : queue' h k = if m.Live L k h then as₀ else .hello h :: as₀ := if_pos ⟨rfl, rfl⟩
  have hother : ∀ b g, ¬(b = h ∧ g = k) → ¬(b = k ∧ g = h) → queue' b g = queue₁ b g :=
    fun b g hbg hgb => (if_neg hbg).trans (if_neg hgb)
  have hqueuek : queue₁ k h = queue k h := if_neg hkh
  have htail : queue' k h = (queue₁ k h).tail :=
    (if_neg fun hand => hkh hand.1).trans (if_pos ⟨rfl, rfl⟩)
  set m' := (m.take k h).act L h hub' with hm'
  have hlive' : ∀ x y, m'.Live L x y ↔ m.Live L x y ∨ x = h ∧ y = k := by
    intro x y
    by_cases hx : x = h
    · subst hx
      by_cases hy : y = k
      · subst hy
        refine iff_of_true ⟨hadj.symm, ?_⟩ (.inr ⟨rfl, rfl⟩)
        rw [hm', act_hub_self]
        exact hmeets.linked
      · simp only [hy, and_false, or_false]
        refine and_congr_right fun hxy => ?_
        rw [hm', act_hub_self, hmeets.frame y hxy hy]
    · simp only [hx, false_and, or_false]
      refine and_congr_right fun hxy => ?_
      rw [hm', act_hub_of_ne hx]
      rfl
  have hc' : Carries L (m'.Live L) m'.up m'.pending queue' := by
    have htake : ∀ g, (m.take k h).pending h g = m.pending h g := fun g => by simp [take, hkh.symm]
    refine hc₁.meet hL hadj hdead hup ((if_neg hkh).trans hpending) hhello hms₀
      hhomes₀ hlive' ?_ ?_ (fun b g hbadj hbg hgb => ?_) (fun hlive => by rw [hthere, if_neg hlive])
      (fun hlive => by rw [hthere, if_pos hlive]) htail hother
    · have hsame : pending₁ h k = m.pending h k := by simp [hpending₁]
      rw [hm', act_pending_self, htake, hsame]
      exact congrArg _ hwrites₀.written_eq
    · rw [hm', act_pending_of_ne hkh]
      simp [take, hpending]
    · by_cases hb : b = h
      · subst hb
        have hgk : g ≠ k := fun heq => hbg ⟨rfl, heq⟩
        rw [hm', act_pending_self, htake, hpending₁]
        simp only [if_true, Function.update_of_ne hgk]
        exact congrArg _ (hwrites g hbadj hgk).written_eq
      · rw [hm', act_pending_of_ne hb]
        simp [take, hpending₁, hb, hgb]
  have hkeep : ∀ {b}, L.graph.Adj b h → b ≠ k →
      Set.EqOn (view h) ((view h).setKnown k) (side L.graph b h) := by
    intro b hb hbk v hv
    have hvk : v ≠ k := by
      rintro rfl
      exact side_disjoint hacyclic hb hadj hbk hv mem_side_self
    simp [View.setKnown, hvk]
  have haddresses : (m.hub h).Addresses L h hub' := by
    intro g hg
    by_cases hgk : g = k
    · subst hgk
      exact ⟨_, hwrites₀⟩
    · exact ⟨_, hwrites g hg hgk⟩
  refine ⟨hub', Function.update view h ((view h).setKnown k), queue', hok, haddresses,
    .inl ⟨hdead, hlive'⟩, ⟨fun x => ?_, ?_, hc', ?_⟩⟩
  · by_cases hx : x = h
    · subst hx
      rw [act_hub_self, Function.update_self]
      exact hmeets.shows
    · rw [act_hub_of_ne hx, Function.update_of_ne hx]
      exact ht.shows x
  · have hcons : Consistent (Update.updates L) L.graph (m.Live L)
        (Function.update view h ((view h).setKnown k)) queue' := by
      refine ht.consistent.update (fun x hx => ?_) (fun x hx => ?_) fun x y hx hy => ?_
      · by_cases hxk : x = k
        · subst hxk
          obtain ⟨_, as', has', _⟩ := hanswer hx
          refine ⟨[.hello x], ?_, fun _ _ => rfl⟩
          rw [htail, hqueuek, has']
          rfl
        · refine ⟨[], ?_, hkeep hx.1 hxk⟩
          rw [hother x h (fun hand => hx.1.ne hand.1) fun hand => hxk hand.1]
          exact (if_neg hx.1.ne).symm
      · have hxk := hnotk hx
        refine ⟨as x, ?_, fun a ha => Update.local_of_homes (hhomes hx a ha), ?_, ?_⟩
        · rw [hother h x (fun hand => hxk hand.2) fun hand => hkh hand.1.symm]
          exact if_pos rfl
        · rw [hlives x hx]
          exact ⟨⟨(ht.shows h).known hL, hnew⟩, trivial⟩
        · rw [hlives x hx]
          exact fun _ _ => rfl
      · rw [hother x y (fun hand => hx hand.1) fun hand => hy hand.2]
        exact if_neg hx
    -- what the other hub has for the side of this one
    obtain ⟨hknown, husers⟩ := ht.dark h k hadj.symm fun hand => hdead hand.1
    have hviewk : Function.update view h ((view h).setKnown k) k = view k :=
      Function.update_of_ne hkh ..
    have hviewh : Function.update view h ((view h).setKnown k) h = (view h).setKnown k :=
      Function.update_self ..
    have hbrought : (Update.updates L).FitAll (queue' h k) (view k) ∧
        Set.EqOn ((Update.updates L).applyAll (queue' h k) (view k)) ((view h).setKnown k)
          (side L.graph h k) := by
      rw [hthere]
      split_ifs with hlive
      · exact hbrings (view k) (fun v hv => (hknown v hv).trans (and_iff_left hlive)) husers
      · obtain ⟨hfits, heq⟩ := hbrings ((view k).setKnown h)
          (fun v hv => by
            rw [View.known_setKnown, hknown v hv]
            simp [hlive])
          fun u hu => (View.user_setKnown).trans (husers u hu)
        refine ⟨⟨fun hyes => hlive ((hknown h mem_side_self).mp hyes).2, hfits⟩, heq⟩
    refine hcons.enliven hadj.symm hdead hlive' (fun _ _ _ => rfl) (fun a ha => ?_) ?_ ?_
    · exact Update.local_of_homes (hc'.homes h k ((hlive' h k).mpr (.inr ⟨rfl, rfl⟩)) a ha)
    · rw [hviewk]
      exact hbrought.1
    · rw [hviewk, hviewh]
      exact hbrought.2
  · intro b g hbadj hdeadbg
    have hold : ¬(m.Live L b g ∧ m.Live L g b) := fun hand =>
      hdeadbg ⟨(hlive' b g).mpr (.inl hand.1), (hlive' g b).mpr (.inl hand.2)⟩
    obtain ⟨hknown, husers⟩ := ht.dark b g hbadj hold
    by_cases hg : g = h
    · subst hg
      rw [Function.update_self]
      by_cases hbk : b = k
      · subst hbk
        refine ⟨fun v hv => ?_, fun u hu => View.user_setKnown.trans (husers u hu)⟩
        rw [View.known_setKnown, hlive']
        simp [hunknown v hv]
      · have heq := hkeep hbadj hbk
        refine ⟨fun v hv => ?_, fun u hu => ?_⟩
        · rw [← heq hv, hknown v hv, hlive']
          simp [hbk]
        · rw [← Update.user_congr heq hu]
          exact husers u hu
    · rw [Function.update_of_ne hg]
      refine ⟨fun v hv => ?_, husers⟩
      rw [hknown v hv, hlive']
      simp [hg]

/-- Whatever comes first on a link that is open can be read. -/
theorem Tuned.read (hcap : KeepsCapitals) (hL : L.Proper) (ht : m.Tuned L view queue)
    (hadj : L.graph.Adj k h) (hup : m.up h k) {msg : Message} {rest : List Message}
    (hpending : m.pending k h = msg :: rest) : ∃ hub' view' queue',
      (m.hub h).receive (L.link h k) msg = .ok hub' ∧ (m.hub h).Addresses L h hub' ∧
      m.Leads L k h hub' ∧ ((m.take k h).act L h hub').Tuned L view' queue' := by
  by_cases hback : m.Live L h k
  · refine ht.relay hcap hL ?_ hback hpending
    by_contra hdead
    rw [ht.carries.silent k h hadj hdead (.inl hback)] at hpending
    cases hpending
  · exact ht.meet hcap hL hadj hback hup hpending

/-- An end of a link has been opened. -/
theorem Tuned.connect (hcap : KeepsCapitals) (hL : L.Proper) (ht : m.Tuned L view queue)
    (hadj : L.graph.Adj b g) (hdown : ¬m.up b g) : ∃ hub',
      (m.hub b).connectionOpened (L.link b g) = .ok hub' ∧ (m.hub b).Addresses L b hub' ∧
      ((m.act L b hub').openEnd b g).Tuned L view queue := by
  have hdead : ¬m.Live L b g := fun hyes => hdown (ht.carries.opened b g hyes).2.1
  have hdead' : ¬m.Live L g b := fun hyes => hdown (ht.carries.opened g b hyes).2.2
  have hstr : (m.hub b).structures (L.link b g) = .new :=
    ((ht.shows b).ends g hadj).2.resolve_right fun hserver => hdead ⟨hadj, hserver⟩
  obtain ⟨hub', hok, hshows, hstructures, ⟨hello, hwrites, hhello⟩, hquiet⟩ :=
    (ht.shows b).greets_opened hcap hL hadj hstr
  have haddresses : (m.hub b).Addresses L b hub' := by
    intro x hx
    by_cases hxg : x = g
    · subst hxg
      exact ⟨_, hwrites⟩
    · exact ⟨_, hquiet x hx hxg⟩
  refine ⟨hub', hok, haddresses, ?_⟩
  set m' := (m.act L b hub').openEnd b g with hm'
  have hlive : m'.Live L = m.Live L := live_act (m := m) fun x _ => by rw [hstructures]
  have hpending : ∀ x y, L.graph.Adj x y → ¬(x = b ∧ y = g) → m'.pending x y = m.pending x y := by
    intro x y hxy hne
    by_cases hx : x = b
    · subst hx
      refine act_pending_self.trans ?_
      rw [(hquiet y hxy fun heq => hne ⟨rfl, heq⟩).written_eq, List.append_nil]
    · exact act_pending_of_ne hx
  have hnone := ht.carries.silent b g hadj hdead (.inr (.inl hdown))
  have hgreeting : m'.pending b g = hello := by
    refine act_pending_self.trans ?_
    rw [hnone, hwrites.written_eq, List.nil_append]
  have hup : ∀ x y, ¬(x = b ∧ y = g) → (m'.up x y ↔ m.up x y) := fun x y hne => or_iff_left hne
  refine ⟨fun x => ?_, ?_, ?_, ?_⟩
  · change ((m.act L b hub').hub x).Shows L x (view x)
    by_cases hx : x = b
    · subst hx
      rw [act_hub_self]
      exact hshows
    · rw [act_hub_of_ne hx]
      exact ht.shows x
  · rw [hlive]
    exact ht.consistent
  · rw [hlive]
    have hneb : ∀ {x y}, m.Live L x y → ¬(x = b ∧ y = g) := by
      rintro x y hl ⟨rfl, rfl⟩
      exact hdead hl
    refine ⟨fun x y hl => ?_, ht.carries.homes, fun x y hl hb => ?_, fun x y hl hb => ?_,
      fun x y hxy hl hb hu hd => ?_, fun x y hxy hl hb => ?_⟩
    · obtain ⟨hxy, hu, hu'⟩ := ht.carries.opened x y hl
      exact ⟨hxy, .inl hu, .inl hu'⟩
    · rw [hpending x y hl.1 (hneb hl)]
      exact ht.carries.both x y hl hb
    · rw [hpending x y hl.1 (hneb hl)]
      exact ht.carries.answered x y hl hb
    · by_cases hxb : x = b ∧ y = g
      · obtain ⟨rfl, rfl⟩ := hxb
        rw [if_pos hd] at hhello
        obtain ⟨m₀, ms, hgreets, hms, rfl⟩ := List.forall₂_cons_right_iff.mp hhello
        obtain rfl := List.forall₂_nil_right_iff.mp hms
        exact ⟨m₀, hgreeting, hgreets⟩
      · rw [hpending x y hxy hxb]
        exact ht.carries.greeted x y hxy hl hb ((hup x y hxb).mp hu) hd
    · by_cases hxb : x = b ∧ y = g
      · obtain ⟨rfl, rfl⟩ := hxb
        rw [hgreeting]
        rcases hb with hb | hb | hb
        · exact absurd hb hdead'
        · exact absurd (.inr ⟨rfl, rfl⟩) hb
        · rw [hb] at hhello
          exact List.forall₂_nil_right_iff.mp hhello
      · rw [hpending x y hxy hxb]
        refine ht.carries.silent x y hxy hl (hb.imp_right (Or.imp_left fun hno hyes => hno ?_))
        exact (hup x y hxb).mpr hyes
  · rw [hlive]
    exact ht.dark

/-! ## Nothing is on the way -/

/-- Both ends of the link are open. -/
def Linked (m : Mesh V) (L : Layout V) (b g : V) : Prop := L.graph.Adj b g ∧ m.up b g ∧ m.up g b

/-- When all is read, a hub has of each hub that it is linked with what that hub has of itself, and
nothing of the others. -/
theorem Tuned.settled (hL : L.Proper) (ht : m.Tuned L view queue)
    (hquiet : ∀ b g, L.graph.Adj b g → m.up g b → m.pending b g = []) (v g : V) :
    (Relation.ReflTransGen (m.Linked L) v g → view g v = view v v) ∧
      (¬Relation.ReflTransGen (m.Linked L) v g → view g v = ⟨False, fun _ => none⟩) := by
  have hsymm : ∀ b g, m.Live L b g → m.Live L g b := by
    intro b g hlive
    by_contra hback
    obtain ⟨_, m₀, ms, as, hm, _⟩ := ht.carries.answered b g hlive hback
    rw [hquiet b g hlive.1 (ht.carries.opened b g hlive).2.2] at hm
    cases hm
  have hlinked : m.Live L = m.Linked L := by
    funext b g
    refine propext ⟨ht.carries.opened b g, ?_⟩
    rintro ⟨hadj, hup, hup'⟩
    by_contra hdead
    have hdead' : ¬m.Live L g b := fun hlive => hdead (hsymm g b hlive)
    have hdials := hL.dials b g hadj
    cases hd : L.dials b g with
    | true =>
      obtain ⟨m₀, hm, _⟩ := ht.carries.greeted b g hadj hdead hdead' hup hd
      rw [hquiet b g hadj hup'] at hm
      cases hm
    | false =>
      obtain ⟨m₀, hm, _⟩ := ht.carries.greeted g b hadj.symm hdead' hdead hup' (by simpa [hd] using hdials)
      rw [hquiet g b hadj.symm hup] at hm
      cases hm
  rw [← hlinked]
  refine ht.consistent.settled hL.tree hsymm (fun b g hlive => ?_) (fun b g hadj hdead v hv => ?_) v g
  · have hboth := ht.carries.both b g hlive (hsymm b g hlive)
    rw [hquiet b g hlive.1 (ht.carries.opened b g hlive).2.2] at hboth
    exact List.forall₂_nil_left_iff.mp hboth
  · obtain ⟨hknown, husers⟩ := ht.dark b g hadj fun hand => hdead hand.1
    refine Home.ext (propext ⟨fun hyes => ?_, False.elim⟩) (funext fun c => husers (v, c) hv)
    exact hdead (hsymm g b ((hknown v hv).mp hyes).2)

end Mesh

end MyLifeHome.Irc

