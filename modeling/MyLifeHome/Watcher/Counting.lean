import MyLifeHome.Core.Frame
import MyLifeHome.Core.Components
import MyLifeHome.Library.Runs
import MyLifeHome.Watcher.Client

/-!
# The channels of the shared watcher

Remote objects share one client, which is on the channels that they ask for. The watcher counts
how often each channel is asked for, joins it with the first request, parts from it with the last
one, and leaves the server when no remote object is left.
-/
namespace MyLifeHome

open Process Runs

variable {κ : Type*} {client : IrcClient κ} {k : κ}

/-- How often a channel is asked for. -/
def Watcher.count (w : Watcher) (channel : String) : Nat := (w.channels.get channel).getD 0

/-! ## Counting -/

/-- The watcher has counted `occ`. -/
def Watcher.Counts (w : Watcher) (occ : String → Nat) : Prop :=
  ∀ channel, w.channels.get channel = if occ channel = 0 then none else some (occ channel)

/-- The client is where the counted channels are asked for, when it is online. -/
def Watcher.Follows (w : Watcher) (client : IrcClient κ) (occ : String → Nat) (k : κ) : Prop :=
  w.online = true → client.OnExactly k fun c => occ c ≠ 0

variable {p q t : Process} {occ : String → Nat} {channel : String} {w : Watcher}
  {channels : List String}

theorem loadWatcher_of_eq (h : p.watcher = some w) : p.loadWatcher = w := by
  rw [loadWatcher, h]
  rfl

theorem online_eq (p : Process) : p.online = p.loadWatcher.online := by
  rw [Process.online, loadWatcher]
  cases p.watcher <;> rfl

/-- Of the process only the watcher changes, and `es` is done. -/
structure Rewatches (p q : Process) (w : Watcher) (es : List Effect) : Prop where
  objects : q.objects = p.objects
  watcher : q.watcher = some w
  trace : q.trace = p.trace ++ es

theorem rewatches_addChannel : Rewatches p (p.addChannel channel)
    { p.loadWatcher with
      channels := p.loadWatcher.channels.set channel (p.loadWatcher.count channel + 1) }
    (if p.loadWatcher.online ∧ p.loadWatcher.channels.get channel = none then [.join channel]
      else []) := by
  unfold addChannel Watcher.count
  cases hget : p.loadWatcher.channels.get channel with
  | some n => simp only [hget]; exact ⟨rfl, rfl, by simp⟩
  | none =>
    by_cases honline : p.loadWatcher.online
    · simp only [hget, honline, if_true, and_self]
      exact ⟨rfl, rfl, rfl⟩
    · simp only [hget, honline, false_and, Bool.false_eq_true, if_false]
      exact ⟨rfl, rfl, by simp⟩

theorem rewatches_removeChannel : Rewatches p (p.removeChannel channel)
    { p.loadWatcher with
      channels := if 1 < p.loadWatcher.count channel
        then p.loadWatcher.channels.set channel (p.loadWatcher.count channel - 1)
        else p.loadWatcher.channels.erase channel }
    (if p.loadWatcher.online ∧ p.loadWatcher.count channel ≤ 1 then [.part channel] else []) := by
  unfold removeChannel Watcher.count
  rcases hget : p.loadWatcher.channels.get channel with _ | _ | _ | n
  · by_cases honline : p.loadWatcher.online
    · simp only [hget, honline]
      exact ⟨rfl, rfl, rfl⟩
    · simp only [hget, honline]
      exact ⟨rfl, rfl, by simp⟩
  · by_cases honline : p.loadWatcher.online
    · simp only [hget, honline]
      exact ⟨rfl, rfl, rfl⟩
    · simp only [hget, honline]
      exact ⟨rfl, rfl, by simp⟩
  · by_cases honline : p.loadWatcher.online
    · simp only [hget, honline]
      exact ⟨rfl, rfl, rfl⟩
    · simp only [hget, honline]
      exact ⟨rfl, rfl, by simp⟩
  · simp only [hget]
    exact ⟨rfl, by simp, by simp⟩

theorem Watcher.Counts.count_eq (h : w.Counts occ) : w.count channel = occ channel := by
  rw [Watcher.count, h channel]
  split_ifs with hzero
  · exact hzero.symm
  · rfl

/-- The watcher may ask for other channels, and has the same objects. -/
structure SameObjects (p q : Process) : Prop where
  objects : q.objects = p.objects
  remotes : q.loadWatcher.objects = p.loadWatcher.objects
  watcher : p.watcher.isSome → q.watcher.isSome
  online : q.loadWatcher.online = p.loadWatcher.online
  trace : p.trace <+: q.trace

theorem SameObjects.refl (p : Process) : SameObjects p p := ⟨rfl, rfl, id, rfl, List.prefix_rfl⟩

theorem SameObjects.trans (h : SameObjects p q) (g : SameObjects q t) : SameObjects p t :=
  ⟨g.objects.trans h.objects, g.remotes.trans h.remotes, fun hp => g.watcher (h.watcher hp),
    g.online.trans h.online, h.trace.trans g.trace⟩

theorem Rewatches.sameObjects {es : List Effect} (h : Rewatches p q w es)
    (hw : w.objects = p.loadWatcher.objects) (hon : w.online = p.loadWatcher.online) :
    SameObjects p q :=
  ⟨h.objects, by rw [loadWatcher_of_eq h.watcher, hw], fun _ => by rw [h.watcher]; rfl,
    by rw [loadWatcher_of_eq h.watcher, hon], ⟨es, h.trace.symm⟩⟩

theorem sameObjects_addChannel : SameObjects p (p.addChannel channel) :=
  rewatches_addChannel.sameObjects rfl rfl

theorem sameObjects_removeChannel : SameObjects p (p.removeChannel channel) :=
  rewatches_removeChannel.sameObjects rfl rfl

theorem SameObjects.foldl {f : Process → String → Process}
    (hf : ∀ p channel, SameObjects p (f p channel)) (channels : List String) (p : Process) :
    SameObjects p (channels.foldl f p) := by
  induction channels generalizing p with
  | nil => exact .refl p
  | cons channel channels ih => exact (hf p channel).trans (ih _)

/-- One more request for a channel. -/
theorem counts_addChannel (h : p.loadWatcher.Counts occ) (channel : String) :
    (p.addChannel channel).loadWatcher.Counts fun c => occ c + [channel].count c := by
  have hr : Rewatches p (p.addChannel channel) _ _ := rewatches_addChannel
  rw [loadWatcher_of_eq hr.watcher, h.count_eq]
  intro c
  rw [Dictionary.get_set, h]
  grind

/-- The first request for a channel joins it. -/
theorem follows_addChannel (hc : client.Lawful) (h : p.loadWatcher.Counts occ)
    (hf : p.loadWatcher.Follows client occ k) (hn : client.channel channel) :
    (p.addChannel channel).loadWatcher.Follows client (fun c => occ c + [channel].count c)
      (p.clientSince client k (p.addChannel channel)) := by
  have hr : Rewatches p (p.addChannel channel) _ _ := rewatches_addChannel
  have hfirst : p.loadWatcher.channels.get channel = none ↔ occ channel = 0 := by
    rw [h]
    split_ifs with hzero
    · exact iff_of_true rfl hzero
    · exact iff_of_false (by simp) hzero
  rw [loadWatcher_of_eq hr.watcher, clientSince_of_eq hr.trace]
  simp only [hfirst]
  intro honline
  have honline : p.loadWatcher.online = true := honline
  by_cases hzero : occ channel = 0
  · rw [if_pos ⟨honline, hzero⟩]
    exact ((hf honline).join hc hn).congr fun c => by grind
  · rw [if_neg fun hboth => hzero hboth.2]
    exact (hf honline).congr fun c => by grind

/-- One request less. -/
theorem counts_removeChannel (h : p.loadWatcher.Counts occ) (hocc : occ channel ≠ 0) :
    (p.removeChannel channel).loadWatcher.Counts fun c => occ c - [channel].count c := by
  have hr : Rewatches p (p.removeChannel channel) _ _ := rewatches_removeChannel
  rw [loadWatcher_of_eq hr.watcher, h.count_eq]
  intro c
  by_cases hmany : 1 < occ channel
  · rw [if_pos hmany, Dictionary.get_set, h]
    grind
  · rw [if_neg hmany, Dictionary.get_erase, h]
    grind

theorem count_cons_eq (channel : String) (channels : List String) (c : String) :
    (channel :: channels).count c = [channel].count c + channels.count c := by
  rw [← List.count_append]
  rfl

theorem foldl_count_cons (occ : String → Nat) (channel : String) (channels : List String) :
    (fun c => occ c + (channel :: channels).count c) =
      fun c => occ c + [channel].count c + channels.count c := by
  funext c
  rw [count_cons_eq, Nat.add_assoc]

theorem counts_addChannels (h : p.loadWatcher.Counts occ) (channels : List String) :
    (channels.foldl addChannel p).loadWatcher.Counts fun c => occ c + channels.count c := by
  induction channels generalizing p occ with
  | nil => simpa using h
  | cons channel channels ih =>
    rw [foldl_count_cons]
    exact ih (counts_addChannel h channel)

theorem follows_addChannels (hc : client.Lawful) (h : p.loadWatcher.Counts occ)
    (hf : p.loadWatcher.Follows client occ k) (hn : ∀ c ∈ channels, client.channel c) :
    (channels.foldl addChannel p).loadWatcher.Follows client (fun c => occ c + channels.count c)
      (p.clientSince client k (channels.foldl addChannel p)) := by
  induction channels generalizing p occ k with
  | nil => simpa [clientSince_self] using hf
  | cons channel channels ih =>
    have hrest := ih (counts_addChannel h channel) (follows_addChannel hc h hf (hn _ (by simp)))
      fun c hc => hn c (by simp [hc])
    have hsame : SameObjects (p.addChannel channel)
        (channels.foldl addChannel (p.addChannel channel)) :=
      SameObjects.foldl (fun _ _ => sameObjects_addChannel) channels _
    rw [← clientSince_trans sameObjects_addChannel.trace hsame.trace] at hrest
    rw [foldl_count_cons]
    exact hrest

theorem counts_removeChannels (h : p.loadWatcher.Counts occ) (channels : List String)
    (hocc : ∀ c, channels.count c ≤ occ c) :
    (channels.foldl removeChannel p).loadWatcher.Counts fun c => occ c - channels.count c := by
  induction channels generalizing p occ with
  | nil => simpa using h
  | cons channel channels ih =>
    have hocc : ∀ c, [channel].count c + channels.count c ≤ occ c := fun c =>
      count_cons_eq channel channels c ▸ hocc c
    have hasked : occ channel ≠ 0 := by
      have hle := hocc channel
      rw [List.count_singleton_self] at hle
      omega
    have hrest := ih (counts_removeChannel h hasked) fun c => Nat.le_sub_of_add_le' (hocc c)
    have hcount : (fun c => occ c - (channel :: channels).count c) =
        fun c => occ c - [channel].count c - channels.count c := by
      funext c
      rw [count_cons_eq, Nat.sub_sub]
    rw [hcount]
    exact hrest

/-- Online, the client parts from the channels that nobody asks for any more. -/
theorem on_removeChannels (hc : client.Lawful) (h : p.loadWatcher.Counts occ)
    (honline : p.loadWatcher.online = true) (hk : client.connected k)
    (hocc : ∀ c, channels.count c ≤ occ c) (hn : ∀ c ∈ channels, client.channel c) :
    client.connected (p.clientSince client k (channels.foldl removeChannel p)) ∧
      ∀ d, client.on (p.clientSince client k (channels.foldl removeChannel p)) d ↔
        client.on k d ∧ ∀ c ∈ channels, occ c = channels.count c → ¬client.same d c := by
  induction channels generalizing p occ k with
  | nil => simpa [clientSince_self] using hk
  | cons channel channels ih =>
    have hocc : ∀ c, [channel].count c + channels.count c ≤ occ c := fun c =>
      count_cons_eq channel channels c ▸ hocc c
    have hle := hocc channel
    rw [List.count_singleton_self] at hle
    have hr : Rewatches p (p.removeChannel channel) _ _ := rewatches_removeChannel
    have hsame : SameObjects (p.removeChannel channel)
        (channels.foldl removeChannel (p.removeChannel channel)) :=
      SameObjects.foldl (fun _ _ => sameObjects_removeChannel) channels _
    have honline' : (p.removeChannel channel).loadWatcher.online = true :=
      sameObjects_removeChannel.online.trans honline
    have hhead : client.connected (p.clientSince client k (p.removeChannel channel)) ∧
        ∀ d, client.on (p.clientSince client k (p.removeChannel channel)) d ↔
          client.on k d ∧ (occ channel ≤ 1 → ¬client.same d channel) := by
      rw [clientSince_of_eq hr.trace, h.count_eq]
      by_cases hlast : occ channel ≤ 1
      · rw [if_pos ⟨honline, hlast⟩]
        refine ⟨hc.connected_part hk, fun d => ?_⟩
        simp [IrcClient.effect, hc.on_part hk (hn channel (by simp)), hlast]
      · rw [if_neg fun hboth => hlast hboth.2]
        exact ⟨hk, fun d => by simp [hlast]⟩
    obtain ⟨hconn, hon⟩ := ih (counts_removeChannel h (by omega)) honline' hhead.1
      (fun c => Nat.le_sub_of_add_le' (hocc c)) fun c hc => hn c (by simp [hc])
    rw [List.foldl_cons, clientSince_trans sameObjects_removeChannel.trace hsame.trace]
    refine ⟨hconn, fun d => ?_⟩
    rw [hon, hhead.2]
    have hsub : ∀ c, occ c - [channel].count c = channels.count c ↔
        occ c = (channel :: channels).count c := by
      intro c
      have hcons := count_cons_eq channel channels c
      have hle := hocc c
      omega
    have hgone : occ channel ≤ 1 ↔ occ channel = (channel :: channels).count channel ∧
        channel ∉ channels := by
      rw [List.count_cons_self, ← List.count_eq_zero]
      omega
    simp only [hsub, hgone, List.forall_mem_cons, and_assoc]
    grind

/-! ## Publishing a remote object -/

variable {r : ObjRef} {c : NetContainer}

structure Publishes (p : Process) (r : ObjRef) (channels : List String) (q : Process) : Prop where
  objects : q.objects = p.objects
  remotes : q.loadWatcher.objects = p.loadWatcher.objects.set (p.objects r).id r
  watcher : q.watcher.isSome
  counts : ∀ {occ}, p.loadWatcher.Counts occ →
    q.loadWatcher.Counts fun c => occ c + channels.count c

theorem publish_remote (hok : p.publish r channels false = .ok (q, c)) :
    c = ⟨r, channels, none⟩ ∧ ∃ u, u = channels.foldl addChannel
        { p with watcher := some p.loadWatcher } ∧
      q.objects = u.objects ∧ q.trace = u.trace ∧
      q.watcher = some { u.loadWatcher with
        objects := u.loadWatcher.objects.set (u.objects r).id r } := by
  simp only [Process.publish, publishRemote, Bool.false_eq_true, if_false, bind, Except.bind, pure,
    Except.pure, Except.ok.injEq, Prod.mk.injEq] at hok
  obtain ⟨rfl, rfl⟩ := hok
  exact ⟨rfl, _, rfl, rfl, rfl, rfl⟩

theorem publishes_of_publish (hok : p.publish r channels false = .ok (q, c)) :
    Publishes p r channels q := by
  obtain ⟨-, u, rfl, hobjects, -, hwatcher⟩ := publish_remote hok
  have hsame : SameObjects { p with watcher := some p.loadWatcher } (channels.foldl addChannel
      { p with watcher := some p.loadWatcher }) :=
    SameObjects.foldl (fun _ _ => sameObjects_addChannel) channels _
  refine ⟨hobjects.trans hsame.objects, ?_, by rw [hwatcher]; rfl, fun {occ} h => ?_⟩
  · rw [loadWatcher_of_eq hwatcher, hsame.remotes, hsame.objects]
    rfl
  · rw [loadWatcher_of_eq hwatcher]
    exact counts_addChannels (p := { p with watcher := some p.loadWatcher }) h channels

/-- What is asked for first is joined. -/
theorem follows_publish (hc : client.Lawful) (hok : p.publish r channels false = .ok (q, c))
    (h : p.loadWatcher.Counts occ) (hf : p.loadWatcher.Follows client occ k)
    (hn : ∀ c ∈ channels, client.channel c) :
    q.loadWatcher.Follows client (fun c => occ c + channels.count c)
      (p.clientSince client k q) := by
  obtain ⟨-, u, rfl, -, htrace, hwatcher⟩ := publish_remote hok
  rw [loadWatcher_of_eq hwatcher, clientSince, htrace]
  exact follows_addChannels (p := { p with watcher := some p.loadWatcher }) hc h hf hn

/-! ## Destroying the container of a remote object -/

/-- Of the watcher nothing is left when it has no more objects. -/
structure Unpublishes (p : Process) (c : NetContainer) (q : Process) : Prop where
  objects : q.objects = p.objects
  remotes : q.loadWatcher.objects = p.loadWatcher.objects.erase (p.objects c.object).id
  watcher : q.watcher.isSome ↔ q.loadWatcher.objects.keys ≠ []
  online : q.online = true ↔ p.online = true ∧ q.watcher.isSome
  counts : ∀ {occ}, p.loadWatcher.Counts occ → (∀ d, c.channels.count d ≤ occ d) →
    (q.watcher = none → ∀ d, occ d = c.channels.count d) →
    q.loadWatcher.Counts fun d => occ d - c.channels.count d

/-- The process once the object and its channels are gone, before the watcher looks whether it
is still needed. -/
def Process.withoutRemote (p : Process) (c : NetContainer) : Process :=
  c.channels.foldl removeChannel
    (((({ p with netRepository := p.netRepository.erase (p.objects c.object).id }.log
      (.destroyed c.object)).removeListener c.object .action
      (.remoteAction c.object c.channels))).removeObject c.object)

/-- The first part of it, which leaves the channels alone. -/
theorem withoutRemote_eq (p : Process) (c : NetContainer) : ∃ u,
    p.withoutRemote c = c.channels.foldl removeChannel u ∧ u.objects = p.objects ∧
      u.watcher = some { p.loadWatcher with
        objects := p.loadWatcher.objects.erase (p.objects c.object).id } ∧
      u.trace = p.trace ++ [.destroyed c.object] := ⟨_, rfl, rfl, rfl, rfl⟩

theorem unpublish_eq (hc : c.client = none) : p.unpublish c = (p.withoutRemote c).checkClean := by
  rw [unpublish, destroyContainer, hc]
  rfl

theorem unpublishes_unpublish (hc : c.client = none) : Unpublishes p c (p.unpublish c) := by
  obtain ⟨u, hu, hobjects, hwatcher, -⟩ := withoutRemote_eq p c
  have hload := loadWatcher_of_eq hwatcher
  have hsame : SameObjects u (p.withoutRemote c) := by
    rw [hu]
    exact SameObjects.foldl (fun _ _ => sameObjects_removeChannel) c.channels u
  have hsome : (p.withoutRemote c).watcher.isSome := hsame.watcher (by rw [hwatcher]; rfl)
  have hremotes : (p.withoutRemote c).loadWatcher.objects =
      p.loadWatcher.objects.erase (p.objects c.object).id := by rw [hsame.remotes, hload]
  have honline : (p.withoutRemote c).online = p.online := by
    rw [online_eq, hsame.online, hload, online_eq]
  rw [unpublish_eq hc, checkClean]
  split_ifs with hkeys
  · refine ⟨hsame.objects.trans hobjects, hremotes, iff_of_true hsome hkeys,
      by rw [honline]; exact (and_iff_left hsome).symm, fun h hle _ => ?_⟩
    rw [hu]
    exact counts_removeChannels (hload ▸ h) c.channels hle
  · have hkeys : (p.withoutRemote c).loadWatcher.objects.keys = [] := not_not.mp hkeys
    have hempty : (p.withoutRemote c).loadWatcher.objects = .empty :=
      Dictionary.ext (List.map_eq_nil_iff.mp hkeys)
    refine ⟨hsame.objects.trans hobjects, ?_, by simp [loadWatcher], by simp [Process.online],
      fun {occ} h hle hnone => ?_⟩
    · rw [← hremotes, hempty]
      rfl
    · intro d
      simp [loadWatcher, hnone rfl d]

/-- What nobody asks for any more is parted from, as long as an object is left. -/
theorem on_unpublish (hc : client.Lawful) (hclient : c.client = none)
    (h : p.loadWatcher.Counts occ) (honline : (p.unpublish c).online = true)
    (hk : client.connected k) (hocc : ∀ d, c.channels.count d ≤ occ d)
    (hn : ∀ d ∈ c.channels, client.channel d) :
    client.connected (p.clientSince client k (p.unpublish c)) ∧
      ∀ d, client.on (p.clientSince client k (p.unpublish c)) d ↔
        client.on k d ∧ ∀ e ∈ c.channels, occ e = c.channels.count e → ¬client.same d e := by
  have hp := ((unpublishes_unpublish (p := p) hclient).online.mp honline).1
  obtain ⟨u, hu, -, hwatcher, htrace⟩ := withoutRemote_eq p c
  have hload := loadWatcher_of_eq hwatcher
  have hkeys : (p.withoutRemote c).loadWatcher.objects.keys ≠ [] := by
    intro hnil
    rw [unpublish_eq hclient, checkClean, if_neg (not_not.mpr hnil)] at honline
    simp [Process.online] at honline
  have hsame : SameObjects u (c.channels.foldl removeChannel u) :=
    SameObjects.foldl (fun _ _ => sameObjects_removeChannel) c.channels u
  rw [unpublish_eq hclient, checkClean, if_pos hkeys, hu,
    clientSince_trans ⟨[.destroyed c.object], htrace.symm⟩ hsame.trace, clientSince_of_eq htrace]
  exact on_removeChannels hc (hload ▸ h) (by rw [hload]; exact online_eq p ▸ hp) hk hocc hn

/-! ## Remote objects that come and go -/

/-- The process, the containers of the remote objects that are live, and the client of the
watcher. -/
structure Shared (κ : Type*) where
  process : Process
  live : List NetContainer
  client : κ

namespace Shared

inductive Deed where
  | publish (r : ObjRef) (channels : List String)
  | unpublish (c : NetContainer)
  | registered
  | closed

def idOf (s : Shared κ) (c : NetContainer) : String := (s.process.objects c.object).id

/-- A live object is not published under the id of another one. What a loss of the connection
sets off may be left by an exception. Without a watcher there is no client. -/
def Step (client : IrcClient κ) (s : Shared κ) : Deed → Shared κ → Prop
  | .publish r channels, s' => (∀ c ∈ s.live, s.idOf c ≠ (s.process.objects r).id) ∧
      PlainKey (s.process.objects r).id ∧ (∀ c ∈ channels, client.channel c ∧ PlainKey c) ∧
      ∃ q c, s.process.publish r channels false = .ok (q, c) ∧
        s' = ⟨q, s.live ++ [c], s.process.clientSince client s.client q⟩
  | .unpublish c, s' => c ∈ s.live ∧
      s' = ⟨s.process.unpublish c, s.live.erase c,
        s.process.clientSince client s.client (s.process.unpublish c)⟩
  | .registered, s' => s.process.watcher.isSome ∧
      s' = ⟨s.process.registered, s.live, s.process.clientSince client
        (client.registered s.client) s.process.registered⟩
  | .closed, s' => s.process.watcher.isSome ∧ ∃ calls q,
      Cascade.Ends step s.process.connectionClosed.2 s.process.connectionClosed.1 calls q ∧
        s' = ⟨q, s.live, s.process.clientSince client (client.closed s.client) q⟩

/-- The channels that the live objects ask for. -/
def requests (s : Shared κ) : List String := s.live.flatMap NetContainer.channels

/-- How often the live objects ask for a channel. -/
def asked (s : Shared κ) (channel : String) : Nat := s.requests.count channel

/-- The count of a channel that the watcher has. -/
def count (s : Shared κ) (channel : String) : Nat :=
  (s.process.watcher.map fun w => w.count channel).getD 0

/-- Online, the client is on the channels with a positive count, whatever it calls them. -/
structure Exact (client : IrcClient κ) (s : Shared κ) : Prop where
  count : ∀ channel, s.count channel = s.asked channel
  joined : s.process.online → ∀ channel,
    client.on s.client channel ↔ ∃ c, 0 < s.count c ∧ client.same channel c
  watcher : s.process.watcher.isSome ↔ s.live ≠ []

/-- What a client joins of itself when it is registered is asked for; and online no channel
that nobody asks for any more is another name of one that somebody asks for. -/
def Careful (client : IrcClient κ) (s : Shared κ) : Deed → Prop
  | .publish _ _ => True
  | .unpublish c => s.process.online → ∀ d ∈ c.channels,
      ∀ e ∈ (s.live.erase c).flatMap NetContainer.channels, client.same e d →
        d ∈ (s.live.erase c).flatMap NetContainer.channels
  | .registered => ∀ channel, client.on (client.registered s.client) channel →
      ∃ c ∈ s.requests, client.same channel c
  | .closed => True

/-- What holds of the watcher in any case. -/
structure Inv (client : IrcClient κ) (s : Shared κ) : Prop where
  counts : s.process.loadWatcher.Counts s.asked
  objects : ∀ id, id ∈ s.process.loadWatcher.objects.keys ↔ id ∈ s.live.map s.idOf
  ids : (s.live.map s.idOf).Nodup
  remote : ∀ c ∈ s.live, c.client = none
  watcher : s.process.watcher.isSome ↔ s.live ≠ []
  named : ∀ c ∈ s.requests, client.channel c

variable {s s' : Shared κ} {deed : Deed}

theorem count_eq (s : Shared κ) (channel : String) :
    s.count channel = s.process.loadWatcher.count channel := by
  rw [count, loadWatcher]
  cases s.process.watcher with
  | none => simp [Watcher.count]
  | some w => rfl

/-- Under the invariant, what is left to show is where the client is. -/
theorem Inv.exact_iff (h : s.Inv client) (hk : s.process.online → client.connected s.client) :
    s.Exact client ↔ s.process.loadWatcher.Follows client s.asked s.client := by
  have hcount : ∀ channel, s.count channel = s.asked channel := fun channel =>
    (s.count_eq channel).trans h.counts.count_eq
  constructor
  · intro he honline
    have honline : s.process.online = true := (online_eq _).trans honline
    refine ⟨hk honline, fun channel => ?_⟩
    simp only [he.joined honline, hcount, Nat.pos_iff_ne_zero]
  · intro hf
    refine ⟨hcount, fun honline channel => ?_, h.watcher⟩
    rw [(hf ((online_eq _).symm.trans honline)).on]
    simp only [hcount, Nat.pos_iff_ne_zero]

/-- Nothing is counted without a watcher. -/
theorem inv_start {p : Process} (hp : p.watcher = none) : Inv client ⟨p, [], k⟩ := by
  have hload : p.loadWatcher = ⟨.empty, .empty, false⟩ := by rw [loadWatcher, hp]; rfl
  refine ⟨fun channel => ?_, ?_, by simp, by simp, by simp [hp], by simp [requests]⟩
  · simp [hload, asked, requests]
  · simp [hload]

/-! ## One deed -/

theorem asked_append (s : Shared κ) (q : Process) (channels : List String) (k : κ) :
    (⟨q, s.live ++ [⟨r, channels, none⟩], k⟩ : Shared κ).asked =
      fun channel => s.asked channel + channels.count channel := by
  funext channel
  simp [asked, requests, List.count_append]

theorem Inv.publish (h : s.Inv client) (hstep : s.Step client (.publish r channels) s') :
    s'.Inv client := by
  obtain ⟨hfree, -, hn, q, c, hok, rfl⟩ := hstep
  obtain ⟨rfl, -⟩ := publish_remote hok
  have hpub := publishes_of_publish hok
  have hids : (s.live ++ [(⟨r, channels, none⟩ : NetContainer)]).map
      (fun c => (q.objects c.object).id) = s.live.map s.idOf ++ [(s.process.objects r).id] := by
    rw [List.map_append, hpub.objects]
    rfl
  refine ⟨?_, fun id => ?_, ?_, fun c hc => ?_, ?_, fun c hc => ?_⟩
  · rw [asked_append]
    exact hpub.counts h.counts
  · change _ ↔ id ∈ (s.live ++ [(⟨r, channels, none⟩ : NetContainer)]).map
      (fun c => (q.objects c.object).id)
    rw [hids, hpub.remotes, Dictionary.mem_keys_set, h.objects, List.mem_append, List.mem_singleton]
    exact or_comm
  · change ((s.live ++ [(⟨r, channels, none⟩ : NetContainer)]).map
      (fun c => (q.objects c.object).id)).Nodup
    rw [hids, List.nodup_append]
    refine ⟨h.ids, by simp, ?_⟩
    rintro id hid _ hr rfl
    obtain ⟨c, hc, hid⟩ := List.mem_map.mp hid
    exact hfree c hc (hid.trans (List.mem_singleton.mp hr))
  · rcases List.mem_append.mp hc with hc | hc
    · exact h.remote c hc
    · rw [List.mem_singleton.mp hc]
  · simp [hpub.watcher]
  · simp only [requests, List.flatMap_append, List.mem_append, List.flatMap_singleton] at hc
    obtain hc | hc := hc
    · exact h.named c hc
    · exact (hn c hc).1

/-- What the other live objects ask for. -/
theorem asked_erase (hc : c ∈ s.live) (channel : String) : s.asked channel = c.channels.count channel +
    ((s.live.erase c).flatMap NetContainer.channels).count channel := by
  have hperm : s.live.Perm (c :: s.live.erase c) := List.perm_cons_erase hc
  calc s.asked channel
      = ((c :: s.live.erase c).flatMap NetContainer.channels).count channel :=
        (hperm.flatMap_right _).count_eq channel
    _ = _ := by rw [List.flatMap_cons, List.count_append]

theorem Inv.unpublish (h : s.Inv client) (hstep : s.Step client (.unpublish c) s') :
    s'.Inv client := by
  obtain ⟨hc, rfl⟩ := hstep
  have hun : Unpublishes s.process c (s.process.unpublish c) :=
    unpublishes_unpublish (h.remote c hc)
  have hperm : s.live.Perm (c :: s.live.erase c) := List.perm_cons_erase hc
  have hidOf : (fun d : NetContainer => ((s.process.unpublish c).objects d.object).id) = s.idOf := by
    rw [hun.objects]
    rfl
  have hasked := asked_erase hc
  have hids : (s.idOf c :: (s.live.erase c).map s.idOf).Nodup := (hperm.map s.idOf).nodup h.ids
  have hkeys : ∀ id, id ∈ (s.process.unpublish c).loadWatcher.objects.keys ↔
      id ∈ (s.live.erase c).map s.idOf := by
    intro id
    have hmem : id ∈ s.live.map s.idOf ↔ id = s.idOf c ∨ id ∈ (s.live.erase c).map s.idOf := by
      rw [(hperm.map s.idOf).mem_iff, List.map_cons, List.mem_cons]
    have hother : id ∈ (s.live.erase c).map s.idOf → id ≠ s.idOf c := by
      rintro hid rfl
      exact (List.nodup_cons.mp hids).1 hid
    rw [hun.remotes, Dictionary.mem_keys_erase, h.objects, hmem]
    change _ ∧ id ≠ s.idOf c ↔ _
    grind
  have hleft : (s.process.unpublish c).loadWatcher.objects.keys = [] ↔ s.live.erase c = [] := by
    simp only [List.eq_nil_iff_forall_not_mem, hkeys]
    simp [List.mem_map]
  have hwatcher : (s.process.unpublish c).watcher.isSome ↔ s.live.erase c ≠ [] := by
    rw [hun.watcher, Ne, hleft]
  refine ⟨?_, fun id => ?_, ?_, fun d hd => h.remote d (List.mem_of_mem_erase hd), hwatcher, ?_⟩
  · have hle : ∀ d, c.channels.count d ≤ s.asked d := fun d => by
      rw [hasked]
      omega
    have hlast : (s.process.unpublish c).watcher = none →
        ∀ d, s.asked d = c.channels.count d := by
      intro hnone d
      have hnil : s.live.erase c = [] := by
        by_contra hne
        have hsome := hwatcher.mpr hne
        rw [hnone] at hsome
        contradiction
      rw [hasked, hnil]
      simp
    have hcount : ∀ d, ((s.live.erase c).flatMap NetContainer.channels).count d =
        s.asked d - c.channels.count d := fun d => by
      rw [hasked]
      omega
    change Watcher.Counts _ fun d => ((s.live.erase c).flatMap NetContainer.channels).count d
    simp only [hcount]
    exact hun.counts h.counts hle hlast
  · change _ ↔ id ∈ (s.live.erase c).map fun d => ((s.process.unpublish c).objects d.object).id
    rw [hidOf]
    exact hkeys id
  · change ((s.live.erase c).map fun d => ((s.process.unpublish c).objects d.object).id).Nodup
    rw [hidOf]
    exact (List.nodup_cons.mp hids).2
  · intro d hd
    obtain ⟨e, he, hd⟩ := List.mem_flatMap.mp hd
    exact h.named d (List.mem_flatMap.mpr ⟨e, List.mem_of_mem_erase he, hd⟩)

/-- What stays when the channels are joined, or the connection is lost. -/
theorem Inv.of_sameIds {q : Process} {k : κ} (h : s.Inv client)
    (hids : ∀ r, (q.objects r).id = (s.process.objects r).id)
    (hobjects : q.loadWatcher.objects = s.process.loadWatcher.objects)
    (hchannels : q.loadWatcher.channels = s.process.loadWatcher.channels)
    (hwatcher : q.watcher.isSome = s.process.watcher.isSome) : Inv client ⟨q, s.live, k⟩ := by
  have hidOf : (fun d : NetContainer => (q.objects d.object).id) = s.idOf := by
    funext d
    exact hids d.object
  refine ⟨fun channel => ?_, fun id => ?_, ?_, h.remote, ?_, h.named⟩
  · rw [hchannels]
    exact h.counts channel
  · change _ ↔ id ∈ s.live.map fun d => (q.objects d.object).id
    rw [hidOf, hobjects]
    exact h.objects id
  · change (s.live.map fun d => (q.objects d.object).id).Nodup
    rw [hidOf]
    exact h.ids
  · exact hwatcher ▸ h.watcher

theorem foldl_join (channels : List String) (p : Process) :
    channels.foldl (fun p channel => p.log (.join channel)) p =
      { p with trace := p.trace ++ channels.map .join } := by
  induction channels generalizing p with
  | nil => simp
  | cons channel channels ih =>
    rw [List.foldl_cons, ih]
    simp [log]

/-- The client joins what is counted. -/
theorem registered_eq (hw : p.watcher = some w) : p.registered = { p.setOnline true with
    trace := p.trace ++ w.channels.keys.map .join } := by
  rw [Process.registered, hw]
  exact foldl_join _ _

theorem registered_loadWatcher (hw : p.watcher = some w) :
    p.registered.loadWatcher = { w with online := true } := by
  rw [registered_eq hw, loadWatcher, setOnline, hw]
  rfl

theorem Inv.registered (h : s.Inv client) (hstep : s.Step client .registered s') :
    s'.Inv client := by
  obtain ⟨hsome, rfl⟩ := hstep
  obtain ⟨w, hw⟩ := Option.isSome_iff_exists.mp hsome
  have hload : s.process.loadWatcher = w := loadWatcher_of_eq hw
  refine h.of_sameIds (fun r => ?_) ?_ ?_ ?_
  · rw [registered_eq hw]
    rfl
  · rw [registered_loadWatcher hw, hload]
  · rw [registered_loadWatcher hw, hload]
  · rw [registered_eq hw]
    simp [setOnline]

theorem connectionClosed_fst (p : Process) : p.connectionClosed.1 = p.setOnline false := by
  rw [connectionClosed]
  cases hw : p.watcher with
  | none =>
    simp only [setOnline, hw, Option.map_none]
    rw [← hw]
  | some w =>
    simp only
    split_ifs with honline
    · rfl
    · have hoff : ({ w with online := false } : Watcher) = w := by
        rw [← Bool.eq_false_iff.mpr honline]
      simp only [setOnline, hw, Option.map_some, hoff]
      rw [← hw]

theorem Inv.closed (h : s.Inv client) (hstep : s.Step client .closed s') : s'.Inv client := by
  obtain ⟨-, calls, q, hend, rfl⟩ := hstep
  have hshape : SameShape s.process.connectionClosed.1 q :=
    hend.1.rel SameShape.refl SameShape.trans step_sameShape
  rw [connectionClosed_fst] at hshape
  have hwatcher : q.watcher = s.process.watcher.map fun w => { w with online := false } :=
    hshape.watcher
  have hnew : q.loadWatcher = { s.process.loadWatcher with online := false } := by
    rw [loadWatcher, hwatcher, loadWatcher]
    cases s.process.watcher <;> rfl
  refine h.of_sameIds hshape.id ?_ ?_ ?_
  · rw [hnew]
  · rw [hnew]
  · rw [hwatcher, Option.isSome_map]

theorem offline_of_closed (hstep : s.Step client .closed s') :
    s'.process.loadWatcher.online = false := by
  obtain ⟨-, calls, q, hend, rfl⟩ := hstep
  have hshape : SameShape s.process.connectionClosed.1 q :=
    hend.1.rel SameShape.refl SameShape.trans step_sameShape
  rw [connectionClosed_fst] at hshape
  have hwatcher : q.watcher = s.process.watcher.map fun w => { w with online := false } :=
    hshape.watcher
  rw [← online_eq, Process.online, hwatcher]
  cases s.process.watcher <;> rfl

theorem Inv.step (h : s.Inv client) (hstep : s.Step client deed s') : s'.Inv client := by
  cases deed with
  | publish r channels => exact h.publish hstep
  | unpublish c => exact h.unpublish hstep
  | registered => exact h.registered hstep
  | closed => exact h.closed hstep

/-! ## Where the client is -/

/-- Online, the client is on the channels that are asked for. -/
def Follows (client : IrcClient κ) (s : Shared κ) : Prop :=
  s.process.loadWatcher.Follows client s.asked s.client

theorem publish_follows (hc : client.Lawful) (h : s.Inv client) (hf : s.Follows client)
    (hstep : s.Step client (.publish r channels) s') : s'.Follows client := by
  obtain ⟨-, -, hn, q, c, hok, rfl⟩ := hstep
  obtain ⟨rfl, -⟩ := publish_remote hok
  have hnew := follows_publish hc hok h.counts hf fun d hd => (hn d hd).1
  rwa [Follows, asked_append]

/-- The last object that asks for a channel takes all its names along. -/
theorem unpublish_follows_iff (hc : client.Lawful) (h : s.Inv client) (hf : s.Follows client)
    (hstep : s.Step client (.unpublish c) s') :
    (s'.process.online → client.connected s'.client) ∧
      (s'.Follows client ↔ s.Careful client (.unpublish c)) := by
  have hnext := h.unpublish hstep
  obtain ⟨hmem, rfl⟩ := hstep
  have hun := unpublishes_unpublish (p := s.process) (h.remote c hmem)
  set rest := (s.live.erase c).flatMap NetContainer.channels with hrest
  have hasked : ∀ d, s.asked d = c.channels.count d + rest.count d := asked_erase hmem
  have hclient := h.remote c hmem
  have hle : ∀ d, c.channels.count d ≤ s.asked d := fun d => hasked d ▸ Nat.le_add_right ..
  have hlost : ∀ d, s.asked d = c.channels.count d ↔ d ∉ rest := fun d => by
    rw [hasked, ← List.count_eq_zero]
    omega
  have hstart : ∀ d, s.asked d ≠ 0 ↔ d ∈ c.channels ∨ d ∈ rest := fun d => by
    rw [hasked, Ne, Nat.add_eq_zero_iff, List.count_eq_zero, List.count_eq_zero]
    tauto
  have hleft : ∀ d, Shared.asked ⟨s.process.unpublish c, s.live.erase c,
      s.process.clientSince client s.client (s.process.unpublish c)⟩ d ≠ 0 ↔ d ∈ rest := fun d => by
    rw [asked, Ne, List.count_eq_zero, not_not]
    rfl
  have hon : (s.process.unpublish c).online = true → client.connected s.client ∧
      client.connected (s.process.clientSince client s.client (s.process.unpublish c)) ∧
      ∀ d, client.on (s.process.clientSince client s.client (s.process.unpublish c)) d ↔
        (∃ e, (e ∈ c.channels ∨ e ∈ rest) ∧ client.same d e) ∧
          ∀ e ∈ c.channels, e ∉ rest → ¬client.same d e := by
    intro honline
    have hbefore := hf ((online_eq _).symm.trans
      (hun.online.mp honline).1)
    obtain ⟨hconn, hon⟩ := on_unpublish hc hclient h.counts honline hbefore.connected hle
      fun d hd => h.named d (List.mem_flatMap.mpr ⟨c, hmem, hd⟩)
    refine ⟨hbefore.connected, hconn, fun d => ?_⟩
    rw [hon, hbefore.on]
    simp only [hlost, hstart]
  refine ⟨fun honline => (hon honline).2.1, ?_⟩
  constructor
  · intro hfollows honline d hd e he hsame
    -- some object is left, so the watcher is
    have honline' : (s.process.unpublish c).online = true := by
      obtain ⟨x, hx, -⟩ := List.mem_flatMap.mp he
      exact hun.online.mpr ⟨honline, hnext.watcher.mpr (List.ne_nil_of_mem hx)⟩
    by_contra hd'
    have hone := ((hon honline').2.2 e).mp
      (((hfollows ((online_eq _).symm.trans honline')).on e).mpr
        ⟨e, (hleft e).mpr he, hc.equivalence.refl e⟩)
    exact hone.2 d hd hd' hsame
  · intro hcareful honline
    have honline : (s.process.unpublish c).online = true := (online_eq _).trans honline
    obtain ⟨-, hconn, hon⟩ := hon honline
    refine ⟨hconn, fun d => ?_⟩
    simp only [hleft]
    rw [hon]
    have hp := (hun.online.mp honline).1
    constructor
    · rintro ⟨⟨e, he, hsame⟩, hnone⟩
      by_cases hin : e ∈ rest
      · exact ⟨e, hin, hsame⟩
      · exact absurd hsame (hnone e (he.resolve_right hin) hin)
    · rintro ⟨e, he, hsame⟩
      refine ⟨⟨e, .inr he, hsame⟩, fun f hf hf' hdf => hf' ?_⟩
      exact hcareful hp f hf e he (hc.equivalence.trans (hc.equivalence.symm hsame) hdf)

/-- What the client has joined of itself stays. -/
theorem registered_follows_iff (hc : client.Lawful) (h : s.Inv client)
    (hstep : s.Step client .registered s') : client.connected s'.client ∧
      (s'.Follows client ↔ s.Careful client .registered) := by
  obtain ⟨hsome, rfl⟩ := hstep
  obtain ⟨w, hw⟩ := Option.isSome_iff_exists.mp hsome
  have hload : s.process.loadWatcher = w := loadWatcher_of_eq hw
  have hkey : ∀ channel, channel ∈ w.channels.keys ↔ channel ∈ s.requests := by
    intro channel
    rw [← Dictionary.get_isSome_iff, ← hload, h.counts channel, asked]
    split_ifs with hzero
    · simpa using List.count_eq_zero.mp hzero
    · simpa using mt List.count_eq_zero.mpr hzero
  have htrace : s.process.registered.trace = s.process.trace ++ w.channels.keys.map .join := by
    rw [registered_eq hw]
  have hstart : client.OnExactly (client.registered s.client)
      fun d => client.on (client.registered s.client) d :=
    ⟨hc.connected_registered _, fun d => ⟨fun hd => ⟨d, hd, hc.equivalence.refl d⟩,
      fun ⟨c, hd, hsame⟩ => hc.on_same hsame hd⟩⟩
  have hjoins := onExactly_joins hc w.channels.keys hstart
    fun d hd => h.named d ((hkey d).mp hd)
  have hasked : ∀ d, Shared.asked ⟨s.process.registered, s.live,
      s.process.clientSince client (client.registered s.client) s.process.registered⟩ d ≠ 0 ↔
      d ∈ s.requests := fun d => by
    rw [asked, Ne, List.count_eq_zero, not_not]
    rfl
  rw [← clientSince_of_eq htrace] at hjoins
  refine ⟨hjoins.connected, fun hfollows d hd => ?_, fun hcareful honline => ?_⟩
  · have honline : s.process.registered.loadWatcher.online = true := by
      rw [registered_loadWatcher hw]
    obtain ⟨e, he, hsame⟩ := ((hfollows honline).on d).mp
      ((hjoins.on d).mpr ⟨d, .inr hd, hc.equivalence.refl d⟩)
    exact ⟨e, (hasked e).mp he, hsame⟩
  · refine ⟨hjoins.connected, fun d => ?_⟩
    rw [hjoins.on]
    simp only [hasked, hkey]
    constructor
    · rintro ⟨e, he | he, hsame⟩
      · exact ⟨e, he, hsame⟩
      · obtain ⟨f, hf, hef⟩ := hcareful e he
        exact ⟨f, hf, hc.equivalence.trans hsame hef⟩
    · rintro ⟨e, he, hsame⟩
      exact ⟨e, .inl he, hsame⟩

/-- One deed keeps the client where it should be exactly when it is careful. -/
theorem exact_iff_of_step (hc : client.Lawful) (h : s.Inv client) (hf : s.Follows client)
    (hstep : s.Step client deed s') :
    (s'.Follows client ↔ s'.Exact client) ∧ (s'.Exact client ↔ s.Careful client deed) := by
  have hinv := h.step hstep
  cases deed with
  | publish r channels =>
    have hnew := publish_follows hc h hf hstep
    have hexact := (hinv.exact_iff fun honline =>
      (hnew ((online_eq _).symm.trans honline)).connected).mpr hnew
    exact ⟨iff_of_true hnew hexact, iff_of_true hexact trivial⟩
  | unpublish c =>
    obtain ⟨hconn, hiff⟩ := unpublish_follows_iff hc h hf hstep
    have hexact := hinv.exact_iff hconn
    exact ⟨hexact.symm, hexact.trans hiff⟩
  | registered =>
    obtain ⟨hconn, hiff⟩ := registered_follows_iff hc h hstep
    have hexact := hinv.exact_iff fun _ => hconn
    exact ⟨hexact.symm, hexact.trans hiff⟩
  | closed =>
    have hoff := offline_of_closed hstep
    have hnew : s'.Follows client := fun honline => by
      rw [hoff] at honline
      contradiction
    have hexact := (hinv.exact_iff fun honline => by
      rw [online_eq, hoff] at honline
      contradiction).mpr hnew
    exact ⟨iff_of_true hnew hexact, iff_of_true hexact trivial⟩

/-- The runs in which the channels are counted and joined exactly after every deed are those
whose deeds are careful. -/
theorem exact_iff_careful (hc : client.Lawful) {p : Process} (hp : p.watcher = none)
    {deeds : List Deed} :
    Steps (fun s deed s' => s.Step client deed s' ∧ s'.Exact client)
        ⟨p, [], client.initial⟩ deeds s ↔
      Steps (guarded (Careful client) (Step client)) ⟨p, [], client.initial⟩ deeds s := by
  refine steps_and_iff_guarded (P := fun s => s.Inv client ∧ s.Follows client) ?_ ?_
    ⟨inv_start hp, fun honline => ?_⟩
  · rintro s deed s' ⟨h, hf⟩ hstep hexact
    exact ⟨h.step hstep, (exact_iff_of_step hc h hf hstep).1.mpr hexact⟩
  · rintro s deed s' ⟨h, hf⟩ hstep
    exact (exact_iff_of_step hc h hf hstep).2
  · rw [← online_eq, Process.online, hp] at honline
    contradiction

/-- An object that asks for a channel twice while the client is offline. -/
theorem exact_iff_careful_twice : ∃ s : Shared Memory,
    Steps (fun s deed s' => Step rememberingClient s deed s' ∧ Exact rememberingClient s')
      ⟨.empty, [], rememberingClient.initial⟩
      [.publish 0 ["#home", "#home"], .registered, .closed, .registered] s ∧
      s.count "#home" = 2 ∧ s.client.joined = [channelKey "#home", channelKey "#home"] := by
  let c : NetContainer := ⟨0, ["#home", "#home"], none⟩
  let q : Process := { (Process.empty.publishRemote 0 ["#home", "#home"]).1 with
    netRepository := Dictionary.empty.set "" c }
  let t : Process := q.registered.setOnline false
  let k0 : Memory := ⟨true, [channelKey "#home"], [channelKey "#home"]⟩
  let k1 : Memory := ⟨false, [], [channelKey "#home"]⟩
  let k2 : Memory := ⟨true, [channelKey "#home", channelKey "#home"],
    [channelKey "#home", channelKey "#home"]⟩
  have hpub : Step rememberingClient ⟨.empty, [], rememberingClient.initial⟩
      (.publish 0 ["#home", "#home"]) ⟨q, [c], rememberingClient.initial⟩ :=
    ⟨by simp, by decide, by decide, q, c, rfl, rfl⟩
  have hreg : Step rememberingClient ⟨q, [c], rememberingClient.initial⟩ .registered
      ⟨q.registered, [c], k0⟩ := ⟨rfl, rfl⟩
  have hclosed : Step rememberingClient ⟨q.registered, [c], k0⟩ .closed ⟨t, [c], k1⟩ :=
    ⟨rfl, [], t, ⟨.call rfl (.refl [] _), by simp⟩, rfl⟩
  have hagain : Step rememberingClient ⟨t, [c], k1⟩ .registered ⟨t.registered, [c], k2⟩ :=
    ⟨rfl, rfl⟩
  have hfirst : Careful rememberingClient ⟨q, [c], rememberingClient.initial⟩ .registered := by
    intro channel h
    simp [rememberingClient] at h
  have hsecond : Careful rememberingClient ⟨t, [c], k1⟩ .registered := by
    intro channel h
    have h : channelKey channel ∈ [channelKey "#home"] := h
    exact ⟨"#home", List.mem_cons_self, List.mem_singleton.mp h⟩
  have hpublish : Careful rememberingClient ⟨.empty, [], rememberingClient.initial⟩
      (.publish 0 ["#home", "#home"]) := trivial
  have hloss : Careful rememberingClient ⟨q.registered, [c], k0⟩ .closed := trivial
  have hrun := Steps.cons (R := guarded (Careful rememberingClient) (Step rememberingClient))
    ⟨hpublish, hpub⟩ (.cons ⟨hfirst, hreg⟩ (.cons ⟨hloss, hclosed⟩
      (.cons ⟨hsecond, hagain⟩ (.nil _))))
  exact ⟨_, (exact_iff_careful rememberingClient_lawful rfl).mpr hrun, rfl, rfl⟩

/-- Two objects, not published. -/
def twoObjects : Process :=
  (Process.empty.alloc (netObject "a" ⟨[]⟩)).alloc (netObject "b" ⟨[]⟩)

def remoteA : NetContainer := ⟨0, ["#x"], none⟩
def remoteB : NetContainer := ⟨1, ["#y"], none⟩

def publishedA : Process := { (twoObjects.publishRemote 0 ["#x"]).1 with
  netRepository := Dictionary.empty.set "a" remoteA }

def publishedBoth : Process := { (publishedA.publishRemote 1 ["#y"]).1 with
  netRepository := (Dictionary.empty.set "a" remoteA).set "b" remoteB }

/-- The client on both channels, and after the connection is lost. -/
def onBoth : Memory :=
  ⟨true, [channelKey "#y", channelKey "#x"], [channelKey "#y", channelKey "#x"]⟩

def offBoth : Memory := ⟨false, [], [channelKey "#y", channelKey "#x"]⟩

theorem step_publishA : Step rememberingClient ⟨twoObjects, [], rememberingClient.initial⟩
    (.publish 0 ["#x"]) ⟨publishedA, [remoteA], rememberingClient.initial⟩ :=
  ⟨by simp, by decide, by decide, publishedA, remoteA, rfl, rfl⟩

theorem step_publishB : Step rememberingClient
    ⟨publishedA, [remoteA], rememberingClient.initial⟩ (.publish 1 ["#y"])
    ⟨publishedBoth, [remoteA, remoteB], rememberingClient.initial⟩ :=
  ⟨by decide, by decide, by decide, publishedBoth, remoteB, rfl, rfl⟩

theorem step_registered : Step rememberingClient
    ⟨publishedBoth, [remoteA, remoteB], rememberingClient.initial⟩ .registered
    ⟨publishedBoth.registered, [remoteA, remoteB], onBoth⟩ := ⟨rfl, rfl⟩

theorem step_closed : Step rememberingClient
    ⟨publishedBoth.registered, [remoteA, remoteB], onBoth⟩ .closed
    ⟨publishedBoth.registered.setOnline false, [remoteA, remoteB], offBoth⟩ :=
  ⟨rfl, [], _, ⟨.call rfl (.call rfl (.refl [] _)), by simp⟩, rfl⟩

/-- Offline, nobody parts from the channel of `a`. -/
theorem step_unpublishA : Step rememberingClient
    ⟨publishedBoth.registered.setOnline false, [remoteA, remoteB], offBoth⟩ (.unpublish remoteA)
    ⟨(publishedBoth.registered.setOnline false).unpublish remoteA, [remoteB], offBoth⟩ :=
  ⟨by decide, rfl⟩

/-- Two objects with a channel each, the first of which goes while the connection is lost. -/
theorem not_exact_rejoined : ¬ ∀ (κ : Type) (client : IrcClient κ), client.Lawful →
    ∀ (p : Process) (deeds : List Deed) (s : Shared κ), p.watcher = none →
      Steps (Step client) ⟨p, [], client.initial⟩ deeds s → s.Exact client := by
  intro hall
  have hagain : Step rememberingClient
      ⟨(publishedBoth.registered.setOnline false).unpublish remoteA, [remoteB], offBoth⟩
      .registered _ := ⟨rfl, rfl⟩
  have hrun := Steps.cons step_publishA (.cons step_publishB (.cons step_registered
    (.cons step_closed (.cons step_unpublishA (.cons hagain (.nil _))))))
  have hexact := hall Memory rememberingClient rememberingClient_lawful _ _ _ rfl hrun
  have hon : channelKey "#x" ∈ [channelKey "#y", channelKey "#y", channelKey "#x"] := by decide
  have hne : channelKey "#x" ≠ channelKey "#y" := by decide
  obtain ⟨c, hc, hsame⟩ := (hexact.joined (by decide) "#x").mp hon
  rw [hexact.count] at hc
  obtain rfl : c = "#y" := List.mem_singleton.mp (List.count_pos_iff.mp hc)
  exact hne hsame

end Shared

end MyLifeHome
