import MyLifeHome.Irc.Telling

/-!
# Clients that are told the truth

What a local user has been told leads to the network as it is. One lemma for each thing that can
happen to the network says that it stays so when the right users are told.
-/
namespace MyLifeHome.Irc

open Checked Rooms

variable [Locale]

namespace Hub

/-- What came on the connection concerned the user, and leads to the channels as they are. -/
structure Informed (hub : Hub) (v : Ref) (d : Conn) : Prop where
  follows : Rooms.Listener.new.Follows nickFold (hub.heard d)
  shows : (hub.client d).Shows hub.net.world v

/-- All users with a connection are informed, and who is not registered yet knows nothing. -/
structure Told (hub : Hub) : Prop extends Linked hub where
  informed : ∀ v ∈ hub.net.users, ∀ d, (hub.net.user v).connection = some d → hub.Informed v d
  fresh : ∀ d, hub.Unregistered d → ¬hub.closed d → hub.heard d = []

variable {hub hub' : Hub} {c d src : Conn} {u v s r : Ref} {net' : Network} {msg : Message}
  {ns : List (Notice String String)} {n : Notice String String}

namespace Informed

theorem tell (h : hub.Informed v d) (ht : Tells hub d ns hub')
    (hf : (hub.client d).Follows nickFold ns)
    (hs : ((hub.client d).hearAll nickFold ns).Shows hub'.net.world v) : hub'.Informed v d := by
  refine ⟨?_, ?_⟩
  · rw [ht, Rooms.Listener.follows_append]
    exact ⟨h.follows, hf⟩
  · rw [client, ht, Rooms.Listener.hearAll_append]
    exact hs

theorem tellOne (h : hub.Informed v d) (ht : Tells hub d [n] hub')
    (hf : (hub.client d).Concerns nickFold n)
    (hs : ((hub.client d).hear nickFold n).Shows hub'.net.world v) : hub'.Informed v d :=
  h.tell ht ⟨hf, trivial⟩ hs

theorem tellNothing (h : hub.Informed v d) (ht : Tells hub d [] hub')
    (hs : (hub.client d).Shows hub'.net.world v) : hub'.Informed v d :=
  h.tell ht trivial hs

end Informed

namespace Told

/-- Who is there now was there before, and stays informed. -/
theorem change (h : hub.Told) (hl : hub'.Linked)
    (hold : ∀ v ∈ hub'.net.users, ∀ d, (hub'.net.user v).connection = some d →
      v ∈ hub.net.users ∧ (hub.net.user v).connection = some d)
    (hinformed : ∀ v ∈ hub.net.users, v ∈ hub'.net.users →
      ∀ d, (hub.net.user v).connection = some d → hub.Informed v d → hub'.Informed v d)
    (hfresh : ∀ d, hub'.Unregistered d → ¬hub'.closed d → hub.Unregistered d ∧ ¬hub.closed d)
    (hnothing : ∀ d, hub.Unregistered d → Tells hub d [] hub') : hub'.Told := by
  refine ⟨hl, ?_, ?_⟩
  · intro v hv d hcon
    obtain ⟨hvold, hconold⟩ := hold v hv d hcon
    exact hinformed v hvold hv d hconold (h.informed v hvold d hconold)
  · intro d hunreg hopen
    obtain ⟨hunreg, hopen⟩ := hfresh d hunreg hopen
    rw [hnothing d hunreg, h.fresh d hunreg hopen, List.append_nil]

/-- The users see nothing, and are told nothing. -/
theorem same (h : hub.Told) (hl : hub'.Linked) (husers : hub'.net.users = hub.net.users)
    (huser : hub'.net.user = hub.net.user)
    (hfresh : ∀ d, hub'.Unregistered d → ¬hub'.closed d → hub.Unregistered d ∧ ¬hub.closed d)
    (hnothing : ∀ d, (∀ s, hub.structures d ≠ .server s) → Tells hub d [] hub') : hub'.Told := by
  refine h.change hl ?_ ?_ hfresh fun d hunreg =>
    hnothing d (Lines.not_server_of_unregistered hunreg)
  · intro v hv d hcon
    rw [husers] at hv
    rw [huser] at hcon
    exact ⟨hv, hcon⟩
  · intro v hv _ d hcon hi
    refine hi.tellNothing (hnothing d (h.not_server hv hcon)) ?_
    have hworld : hub'.net.world = hub.net.world :=
      Network.world_congr husers (fun v => by rw [huser]) fun v => by rw [huser]
    rw [hworld]
    exact hi.shows

theorem wrote (h : hub.Told) (hw : Wrote hub hub')
    (hnothing : ∀ d, (∀ s, hub.structures d ≠ .server s) → Tells hub d [] hub') : hub'.Told := by
  exact h.same (h.toLinked.wrote hw) (by rw [hw.net]) (by rw [hw.net]) (fun _ => hw.fresh) hnothing

theorem replyError (h : hub.Told) {num : Numerics} (hs : Silent num.digits)
    (hok : hub.replyError src num = .ok hub') : hub'.Told :=
  h.wrote (wrote_replyError hok) fun _ _ => tells_replyError hs hok

/-! ## Users who are gone -/

open Classical in
/-- Whoever shared a channel with somebody who is gone is told so. -/
theorem remove (h : hub.Told) (hl : hub'.Linked) (us : List (Ref × String))
    (hw : hub.net.Within hub'.net)
    (hworld : (us.foldl (fun w p => w.remove p.1) hub.net.world).Alike hub'.net.world)
    (hnames : ∀ p ∈ us, ∀ v, hub.net.world.Share p.1 v → hub.net.world.Names nickFold p.2 p.1)
    (htells : ∀ v ∈ hub.net.users, (∀ p ∈ us, v ≠ p.1) →
      ∀ d, (hub.net.user v).connection = some d → Tells hub d
        (us.flatMap fun p => if hub.net.world.Share p.1 v then [.gone p.2] else []) hub')
    (hfresh : ∀ d, hub'.Unregistered d → ¬hub'.closed d → hub.Unregistered d ∧ ¬hub.closed d)
    (hnothing : ∀ d, hub.Unregistered d → Tells hub d [] hub') : hub'.Told := by
  refine h.change hl ?_ ?_ hfresh hnothing
  · intro v hv d hcon
    rw [hw.user v] at hcon
    exact ⟨hw.users v hv, hcon⟩
  · intro v hv hv' d hcon hi
    have hpresent : (us.foldl (fun w p => w.remove p.1) hub.net.world).present v :=
      (hworld.present v).mp hv'
    refine hi.tell (htells v hv (World.present_removeAll.mp hpresent).2 d hcon) ?_ ?_
    · refine Rooms.Listener.follows_of_gone fun x hx => ?_
      obtain ⟨p, _, hp⟩ := List.mem_flatMap.mp hx
      split_ifs at hp
      · exact ⟨p.2, List.mem_singleton.mp hp⟩
      · simp at hp
    · exact (hi.shows.remove_all fun p hp => hnames p hp v).congr hworld hpresent

/-! ## A new nick -/

/-- Whoever shares a channel with the user, and the user, is told the new nick. -/
theorem rename (h : hub.Told) {nick old : String} (hl : hub'.Linked)
    (hnet : hub'.net = hub.net.modifyUser u fun user => { user with nick := nick })
    (hnames : u ∈ hub.net.users → hub.net.world.Names nickFold old u)
    (htells : ∀ v ∈ hub.net.users, ∀ d, (hub.net.user v).connection = some d →
      (v = u ∨ hub.net.world.Share u v) ∧ Tells hub d [.renamed old nick] hub' ∨
      (v ≠ u ∧ ¬hub.net.world.Share u v) ∧ Tells hub d [] hub')
    (hfresh : ∀ d, hub'.Unregistered d → ¬hub'.closed d → hub.Unregistered d ∧ ¬hub.closed d)
    (hnothing : ∀ d, hub.Unregistered d → Tells hub d [] hub') : hub'.Told := by
  refine h.change hl ?_ ?_ hfresh hnothing
  · intro v hv d hcon
    rw [hnet] at hv hcon
    rw [Network.setNick_user] at hcon
    exact ⟨hv, hcon⟩
  · intro v hv _ d hcon hi
    have hworld : hub'.net.world = hub.net.world.rename u nick := by
      rw [hnet, Network.world_setNick]
    rcases htells v hv d hcon with ⟨hor, ht⟩ | ⟨⟨hne, hshare⟩, ht⟩
    · have hu : u ∈ hub.net.users := by
        rcases hor with rfl | hshare
        · exact hv
        · exact h.sound.mem_of_share hshare
      refine hi.tellOne ht trivial ?_
      rw [hworld]
      exact hi.shows.rename_told hv (hnames hu)
    · refine hi.tellNothing ht ?_
      rw [hworld]
      exact hi.shows.rename_untold (Ne.symm hne) hshare

end Told

end Hub

end MyLifeHome.Irc
