import MyLifeHome.Irc.Relaying
import MyLifeHome.Library.Visits

/-!
# What a hub tells a new neighbour

A hub that has got a new link writes all that it knows to it: the servers from the root downwards,
then the users, then the channels that they are on.
-/
namespace MyLifeHome.Irc

open Checked Replication Visits

variable [Locale]

namespace Network

variable {net : Network} {s t r c : Ref} {depth : Nat}

/-! ## The tree of servers -/

def children (net : Network) (s : Ref) : List Ref := (net.server s).children

theorem Sound.forest (h : net.Sound) : Forest net.children net.Registered where
  closed ha hb := ((h.tree.children _ ha _).mp hb).1
  nodup ha := h.tree.nodup _ ha
  older ha hb := by
    obtain ⟨hreg, hparent⟩ := (h.tree.children _ ha _).mp hb
    exact h.older _ hreg _ hparent
  unique ha hb hc hc' := by
    have hparent := ((h.tree.children _ ha _).mp hc).2
    rw [((h.tree.children _ hb _).mp hc').2] at hparent
    exact (Option.some.inj hparent).symm

theorem Sound.deep (h : net.Sound) (hs : net.Registered s) (hdepth : net.next < depth + s) :
    Deep net.children depth s := by
  induction depth generalizing s with
  | zero => exact absurd (h.servers_lt s hs) (not_depth_zero hdepth)
  | succ depth ih =>
    intro c hc
    exact ih (h.forest.closed hs hc) (depth_child hdepth (h.forest.older hs hc))

omit [Locale] in
/-- A loop that collects what it finds for each member of a list. -/
theorem foldlM_append {f : Ref → Except Fault (List Ref)} {g : Ref → List Ref} {as list : List Ref}
    (hf : ∀ a ∈ as, f a = .ok (g a)) : as.foldlM (fun list a => do
      let more ← f a
      pure (list ++ more)) list = .ok (list ++ as.flatMap g) := by
  induction as generalizing list with
  | nil =>
    simp only [List.foldlM_nil, List.flatMap_nil, List.append_nil]
    rfl
  | cons a as ih =>
    obtain ⟨ha, has⟩ := List.forall_mem_cons.mp hf
    rw [List.foldlM_cons, ha]
    refine (ih has).trans ?_
    simp

theorem Sound.usersBehind_eq (h : net.Sound) (hs : net.Registered s)
    (hdepth : net.next < depth + s) : net.usersBehind depth s =
      .ok ((visits net.children depth s).flatMap fun t => (net.server t).users) := by
  induction depth generalizing s with
  | zero => exact absurd (h.servers_lt s hs) (not_depth_zero hdepth)
  | succ depth ih =>
    have hchildren : ∀ c ∈ (net.server s).children, net.usersBehind depth c = .ok
        ((visits net.children depth c).flatMap fun t => (net.server t).users) := fun c hc =>
      ih (h.forest.closed hs hc) (depth_child hdepth (h.forest.older hs hc))
    rw [usersBehind]
    refine (foldlM_append hchildren).trans ?_
    simp [visits, children, List.flatMap_assoc]

/-- The servers as they are told to a new neighbour, but for the hub's own. -/
def others (net : Network) (root target : Ref) : List Ref :=
  (net.children root).flatMap fun c => if c = target then [] else visits net.children net.next c

variable {root target : Ref}

section

omit [Locale]

theorem others_eq : net.others root target =
    ((net.children root).filter (· ≠ target)).flatMap (visits net.children net.next) := by
  unfold others
  induction net.children root with
  | nil => rfl
  | cons c cs ih =>
    by_cases hc : c = target
    · simp [hc, ih]
    · simp [hc, ih]

theorem rooted_others : Rooted net.children {root} (net.others root target) := by
  rw [others_eq]
  exact rooted_flatMap fun c hc => rooted_visits ⟨root, rfl, (List.mem_filter.mp hc).1⟩

end

theorem Sound.deep_child (h : net.Sound) (hroot : net.Registered root) (hc : c ∈ net.children root) :
    Deep net.children net.next c := by
  have hlt : root < c := h.forest.older hroot hc
  exact h.deep (h.forest.closed hroot hc) (Nat.lt_add_of_pos_right (Nat.zero_lt_of_lt hlt))

/-- The users on the servers that are told. -/
theorem Sound.users_others (h : net.Sound) (hroot : net.Registered root) :
    ((net.server root).children.filter fun peer => some peer ≠ some target).foldlM
        (fun users peer => do
          let more ← net.getUsersBehindServer peer
          pure (users ++ more)) (net.server root).users =
      .ok ((root :: net.others root target).flatMap fun t => (net.server t).users) := by
  have hpeers : ∀ c ∈ (net.server root).children.filter fun peer => some peer ≠ some target,
      net.getUsersBehindServer c = .ok
        ((visits net.children net.next c).flatMap fun t => (net.server t).users) := by
    intro c hc
    have hchild : c ∈ net.children root := (List.mem_filter.mp hc).1
    have hsucc := visits_succ (h.deep_child hroot hchild)
    rw [getUsersBehindServer, h.usersBehind_eq (h.forest.closed hroot hchild) depth_root, hsucc]
  rw [foldlM_append hpeers, others_eq, List.flatMap_cons, List.flatMap_assoc]
  simp only [ne_eq, Option.some_inj]
  rfl

theorem Sound.nodup_others (h : net.Sound) (hroot : net.Registered root) :
    (root :: net.others root target).Nodup := by
  have hdeep : Deep net.children (net.next + 1) root := fun c hc => h.deep_child hroot hc
  have hall := h.forest.nodup_visits hroot hdeep
  rw [visits] at hall
  refine hall.sublist (List.Sublist.cons_cons _ ?_)
  rw [others_eq, List.flatMap, List.flatMap]
  exact (List.filter_sublist.map _).flatten

/-- All servers are told of that are not the hub's own or the neighbour, which has none below it. -/
theorem Sound.mem_others_iff (h : net.Sound) (hroot : net.getLocalServer = some root)
    (htarget : target ∈ net.children root) (hleaf : net.children target = []) :
    t ∈ net.others root target ↔ net.Registered t ∧ t ≠ root ∧ t ≠ target := by
  obtain ⟨hreg, _⟩ := getLocalServer_eq_some hroot
  have hmem : ∀ c ∈ net.children root, ∀ t, t ∈ visits net.children net.next c ↔
      Below net.children c t := fun c hc t => mem_visits_iff (h.deep_child hreg hc)
  rw [others_eq, List.mem_flatMap]
  constructor
  · rintro ⟨c, hc, ht⟩
    obtain ⟨hc, hne⟩ := List.mem_filter.mp hc
    have hne : c ≠ target := by simpa using hne
    have hbelow := (hmem c hc t).mp ht
    obtain ⟨htreg, hle⟩ := h.forest.of_below (h.forest.closed hreg hc) hbelow
    refine ⟨htreg, ?_, ?_⟩
    · rintro rfl
      exact absurd hle (h.forest.older hreg hc).not_ge
    · intro heq
      rw [heq] at hbelow
      exact hne (h.forest.eq_of_below hreg hc htarget hbelow .refl)
  · rintro ⟨htreg, hne, hnt⟩
    obtain ⟨root', hroot', hreach⟩ := h.tree.root
    obtain rfl := Option.some.inj (hroot.symm.trans hroot')
    have hbelow : Below net.children root t := (hreach t).mpr htreg
    obtain rfl | ⟨c, hc, hct⟩ := Relation.ReflTransGen.cases_head hbelow
    · exact absurd rfl hne
    · refine ⟨c, List.mem_filter.mpr ⟨hc, ?_⟩, (hmem c hc t).mpr hct⟩
      simp only [ne_eq, decide_eq_true_eq]
      rintro rfl
      obtain rfl | ⟨d, hd, _⟩ := Relation.ReflTransGen.cases_head hct
      · exact hnt rfl
      · rw [hleaf] at hd
        simp at hd

/-- The users who are told: all that are not on the neighbour. -/
theorem Sound.mem_users_others (h : net.Sound) (hroot : net.getLocalServer = some root)
    (htarget : target ∈ net.children root) (hleaf : net.children target = []) :
    r ∈ (root :: net.others root target).flatMap (fun t => (net.server t).users) ↔
      r ∈ net.users ∧ (net.user r).server ≠ target := by
  obtain ⟨hreg, _⟩ := getLocalServer_eq_some hroot
  have hmem : ∀ t, t ∈ root :: net.others root target ↔ net.Registered t ∧ t ≠ target := by
    intro t
    rw [List.mem_cons, h.mem_others_iff hroot htarget hleaf]
    constructor
    · rintro (rfl | ⟨ht, _, hne⟩)
      · exact ⟨hreg, (h.forest.older hreg htarget).ne⟩
      · exact ⟨ht, hne⟩
    · rintro ⟨ht, hne⟩
      exact or_iff_not_imp_left.mpr fun hnot => ⟨ht, hnot, hne⟩
  rw [List.mem_flatMap]
  constructor
  · rintro ⟨t, ht, hr⟩
    obtain ⟨htreg, hne⟩ := (hmem t).mp ht
    obtain ⟨hmem, rfl⟩ := (h.homes.listed t htreg r).mp hr
    exact ⟨hmem, hne⟩
  · rintro ⟨hr, hne⟩
    have hhome := h.homes.registered r hr
    exact ⟨_, (hmem _).mpr ⟨hhome, hne⟩, (h.homes.listed _ hhome r).mpr ⟨hr, rfl⟩⟩

theorem Sound.nodup_users_others (h : net.Sound) (hroot : net.getLocalServer = some root)
    (htarget : target ∈ net.children root) (hleaf : net.children target = []) :
    ((root :: net.others root target).flatMap fun t => (net.server t).users).Nodup := by
  obtain ⟨hreg, _⟩ := getLocalServer_eq_some hroot
  have hall : ∀ t ∈ root :: net.others root target, net.Registered t := by
    refine List.forall_mem_cons.mpr ⟨hreg, fun t ht => ?_⟩
    exact ((h.mem_others_iff hroot htarget hleaf).mp ht).1
  refine List.nodup_flatMap.mpr ⟨fun t ht => h.homes.nodup t (hall t ht), ?_⟩
  refine (h.nodup_others hreg).pairwise_of_forall_ne ?_
  intro s hs t ht hne r hr hr'
  obtain ⟨_, hhome⟩ := (h.homes.listed s (hall s hs) r).mp hr
  obtain ⟨_, hhome'⟩ := (h.homes.listed t (hall t ht) r).mp hr'
  exact hne (hhome.symm.trans hhome')

end Network

/-! ## What is written -/

namespace Hub

variable {hub hub' : Hub} {dest d : Conn} {s r target root : Ref} {ms : List Message} {m : Message}

omit [Locale] in
/-- A loop that writes for each member of a list. -/
theorem writes_foldlM_each {α β : Type} {f : Hub → α → Except Fault Hub} {as : List α}
    {g : α → List β} {R : Message → β → Prop} (step : ∀ {hub₁ a hub₂}, a ∈ as → Wrote hub hub₁ →
      f hub₁ a = .ok hub₂ → Wrote hub₁ hub₂ ∧ ∃ ms, hub₁.Writes d ms hub₂ ∧ List.Forall₂ R ms (g a))
    (h : as.foldlM f hub = .ok hub') :
    ∃ ms, hub.Writes d ms hub' ∧ List.Forall₂ R ms (as.flatMap g) := by
  suffices hall : ∀ hub₁, Wrote hub hub₁ → as.foldlM f hub₁ = .ok hub' →
      ∃ ms, hub₁.Writes d ms hub' ∧ List.Forall₂ R ms (as.flatMap g) from hall hub .refl h
  clear h
  induction as with
  | nil =>
    intro hub₁ _ h
    obtain rfl := Except.ok.inj h
    exact ⟨[], .refl, .nil⟩
  | cons a as ih =>
    intro hub₁ hw h
    rw [List.foldlM_cons] at h
    obtain ⟨hub₂, h₂, h⟩ := bind_eq_ok_iff.mp h
    obtain ⟨hw₂, ms, hms, hR⟩ := step List.mem_cons_self hw h₂
    obtain ⟨ms', hms', hR'⟩ := ih (fun ha => step (List.mem_cons_of_mem a ha)) hub₂ (hw.trans hw₂) h
    exact ⟨ms ++ ms', hms.trans hms', List.rel_append hR hR'⟩

/-- How a server is told to a new neighbour. -/
def TellsServer (hub : Hub) (m : Message) (s : Ref) : Prop :=
  hub.serverMessage ((hub.net.server s).parent.map fun p => (hub.net.server p).name) s = .ok m

def TellsUser (hub : Hub) (m : Message) (r : Ref) : Prop := hub.createNewNickMessage r 1 = .ok m

/-- The names of the channels that the user is on. -/
def channelNames (hub : Hub) (r : Ref) : List String :=
  (hub.net.user r).channels.values.map fun c => (hub.net.channel c).name

def TellsChannels (hub : Hub) (m : Message) (r : Ref) : Prop :=
  m = ⟨some (hub.net.user r).nick, "JOIN", [",".intercalate (hub.channelNames r)], true⟩

section

omit [Locale]

theorem Wrote.tellsServer {hub₁ : Hub} (hw : Wrote hub hub₁) : hub₁.TellsServer m s ↔ hub.TellsServer m s := by
  obtain ⟨out, rfl⟩ := hw
  rfl

theorem writes_sendServer {excluded : Option Ref} {depth : Nat} (hopen : ¬hub.closed dest)
    (hex : ∀ t ∈ Visits.visits hub.net.children depth s, some t ≠ excluded)
    (h : sendServer dest excluded depth hub s true true = .ok hub') :
    ∃ ms, hub.Writes dest ms hub' ∧
      List.Forall₂ hub.TellsServer ms (visits hub.net.children depth s) := by
  induction depth generalizing hub s hub' with
  | zero => cases h
  | succ depth ih =>
    rw [visits] at hex ⊢
    obtain ⟨hs, hex⟩ := List.forall_mem_cons.mp hex
    rw [sendServer, if_neg hs] at h
    simp only [if_true] at h
    obtain ⟨hub₁, h₁, h⟩ := bind_eq_ok_iff.mp h
    obtain ⟨m, hm, h₁⟩ := bind_eq_ok_iff.mp h₁
    have hw := wrote_send h₁
    have hchildren : ∃ ms, hub₁.Writes dest ms hub' ∧ List.Forall₂ hub.TellsServer ms
        ((hub.net.children s).flatMap (visits hub.net.children depth)) := by
      rw [hw.net] at h
      refine writes_foldlM_each (fun {hub₂ c hub₃} hc hw₂ h₂ => ⟨wrote_sendServer h₂, ?_⟩) h
      have hw₂ := hw.trans hw₂
      have hopen₂ : ¬hub₂.closed dest := by rwa [hw₂.closed]
      obtain ⟨ms, hms, hR⟩ := ih hopen₂ (fun t ht => hex t
        (List.mem_flatMap.mpr ⟨c, hc, by rwa [hw₂.net] at ht⟩)) h₂
      rw [hw₂.net] at hR
      exact ⟨ms, hms, hR.imp fun _ _ => hw₂.tellsServer.mp⟩
    obtain ⟨ms, hms, hR⟩ := hchildren
    exact ⟨[m] ++ ms, (writes_send hopen h₁).trans hms, .cons hm hR⟩

theorem writes_sendSelf (hopen : ¬hub.closed dest) (hroot : hub.net.getLocalServer = some root)
    (h : hub.sendSelf dest = .ok hub') : ∃ m, hub.Writes dest [m] hub' ∧ hub.TellsServer m root := by
  unfold sendSelf at h
  rw [hroot] at h
  dsimp only at h
  rw [sendServer, if_neg (by simp)] at h
  obtain ⟨hub₁, h₁, h⟩ := bind_eq_ok_iff.mp h
  obtain ⟨m, hm, h₁⟩ := bind_eq_ok_iff.mp h₁
  obtain rfl := Except.ok.inj h
  exact ⟨m, writes_send hopen h₁, hm⟩

end

/-- The servers, but for the new neighbour, then the users, then the channels that they are on. -/
theorem writes_sendNetSync {publishSelf : Bool} (hs : hub.net.Sound) (hopen : ¬hub.closed dest)
    (hroot : hub.net.getLocalServer = some root) (hstr : hub.structures dest = .server target)
    (hne : root ≠ target) (hother : target ∉ hub.net.others root target)
    (h : hub.sendNetSync dest publishSelf = .ok hub') :
    ∃ hello servers users channels, hub.Writes dest (hello ++ (servers ++ (users ++ channels))) hub' ∧
      List.Forall₂ hub.TellsServer hello (if publishSelf then [root] else []) ∧
      List.Forall₂ hub.TellsServer servers (hub.net.others root target) ∧
      List.Forall₂ hub.TellsUser users
        ((root :: hub.net.others root target).flatMap fun t => (hub.net.server t).users) ∧
      List.Forall₂ hub.TellsChannels channels
        (((root :: hub.net.others root target).flatMap fun t => (hub.net.server t).users).flatMap
          fun r => if ",".intercalate (hub.channelNames r) = "" then [] else [r]) := by
  have hreg := (Network.getLocalServer_eq_some hroot).1
  unfold sendNetSync at h
  dsimp only at h
  rw [hstr, hroot] at h
  dsimp only at h
  obtain ⟨hub₁, h₁, hrest⟩ := bind_eq_ok_iff.mp h
  obtain ⟨list, hlist, hmore⟩ := bind_eq_ok_iff.mp hrest
  obtain ⟨hub₂, h₂, h₃⟩ := bind_eq_ok_iff.mp hmore
  obtain rfl := Except.ok.inj (hlist.symm.trans (hs.users_others hreg))
  have hw₁ := wrote_sendServer h₁
  have hopen₁ : ∀ {hub₁}, Wrote hub hub₁ → ¬hub₁.closed dest := by
    intro hub₁ hw
    rwa [hw.closed]
  -- the servers
  have hservers : ∃ hello servers, hub.Writes dest (hello ++ servers) hub₁ ∧
      List.Forall₂ hub.TellsServer hello (if publishSelf then [root] else []) ∧
      List.Forall₂ hub.TellsServer servers (hub.net.others root target) := by
    rw [sendServer, if_neg (by simpa using hne)] at h₁
    obtain ⟨hub₀, h₀, h₁⟩ := bind_eq_ok_iff.mp h₁
    simp only [if_true] at h₁
    have hhello : Wrote hub hub₀ ∧ ∃ hello, hub.Writes dest hello hub₀ ∧
        List.Forall₂ hub.TellsServer hello (if publishSelf then [root] else []) := by
      split_ifs at h₀ with hself
      · obtain ⟨m, hm, h₀⟩ := bind_eq_ok_iff.mp h₀
        rw [if_pos hself]
        exact ⟨wrote_send h₀, [m], writes_send hopen h₀, .cons hm .nil⟩
      · obtain rfl := Except.ok.inj h₀
        rw [if_neg hself]
        exact ⟨.refl, [], .refl, .nil⟩
    obtain ⟨hw₀, hello, hms, hR⟩ := hhello
    rw [hw₀.net] at h₁
    obtain ⟨servers, hms', hR'⟩ : ∃ ms, hub₀.Writes dest ms hub₁ ∧
        List.Forall₂ hub.TellsServer ms (hub.net.others root target) := by
      refine writes_foldlM_each (fun {hub₂ c hub₃} hc hw₂ h₂ => ⟨wrote_sendServer h₂, ?_⟩) h₁
      have hw := hw₀.trans hw₂
      by_cases hct : c = target
      · rw [hct] at h₂ ⊢
        have hnext : hub.net.next ≠ 0 := (Nat.zero_lt_of_lt (hs.servers_lt root hreg)).ne'
        obtain ⟨n, hn⟩ := Nat.exists_eq_succ_of_ne_zero hnext
        rw [hn, sendServer, if_pos rfl] at h₂
        obtain rfl := Except.ok.inj h₂
        simp [Writes.refl]
      · rw [if_neg hct]
        have hskip : ∀ t ∈ visits hub₂.net.children hub.net.next c, some t ≠ some target := by
          intro t ht heq
          rw [hw.net, Option.some.inj heq] at ht
          refine hother ?_
          rw [Network.others_eq]
          exact List.mem_flatMap.mpr ⟨c, List.mem_filter.mpr ⟨hc, by simpa using hct⟩, ht⟩
        obtain ⟨ms, hms, hR⟩ := writes_sendServer (hopen₁ hw) hskip h₂
        rw [hw.net] at hR
        exact ⟨ms, hms, hR.imp fun _ _ => hw.tellsServer.mp⟩
    exact ⟨hello, servers, hms.trans hms', hR, hR'⟩
  -- the users
  have husers : Wrote hub hub₂ ∧ ∃ users, hub₁.Writes dest users hub₂ ∧ List.Forall₂ hub.TellsUser users
      ((root :: hub.net.others root target).flatMap fun t => (hub.net.server t).users) := by
    have hw₂ : Wrote hub₁ hub₂ := by
      refine wrote_foldlM ?_ h₂
      intro hub user hub' h
      obtain ⟨m, _, h⟩ := bind_eq_ok_iff.mp h
      exact wrote_send h
    have hstep : ∀ {hub₃ r hub₄}, Wrote hub₁ hub₃ →
        (do hub₃.send dest (← hub₃.createNewNickMessage r 1)) = .ok hub₄ →
        Wrote hub₃ hub₄ ∧ ∃ ms, hub₃.Writes dest ms hub₄ ∧ List.Forall₂ hub.TellsUser ms [r] := by
      intro hub₃ r hub₄ hw h
      obtain ⟨m, hm, h⟩ := bind_eq_ok_iff.mp h
      refine ⟨wrote_send h, [m], writes_send (hopen₁ (hw₁.trans hw)) h, .cons ?_ .nil⟩
      obtain ⟨out, rfl⟩ := hw₁.trans hw
      exact hm
    obtain ⟨users, hms, hR⟩ := writes_foldlM_each (g := fun r => [r]) (fun _ hw h => hstep hw h) h₂
    rw [List.flatMap_singleton'] at hR
    exact ⟨hw₁.trans hw₂, users, hms, hR⟩
  obtain ⟨hello, servers, hms₁, hhello, hothers⟩ := hservers
  obtain ⟨hw₂, users, hms₂, hnicks⟩ := husers
  -- the channels
  have hstep : ∀ {hub₃ r hub₄}, Wrote hub hub₃ → hub₃.sendJoins dest r = .ok hub₄ →
      ∃ ms, hub₃.Writes dest ms hub₄ ∧ List.Forall₂ hub.TellsChannels ms
        (if ",".intercalate (hub.channelNames r) = "" then [] else [r]) := by
    intro hub₃ r hub₄ hw h
    have hnames : hub₃.channelNames r = hub.channelNames r := by simp only [channelNames, hw.net]
    unfold sendJoins at h
    dsimp only at h
    change (if ",".intercalate (hub₃.channelNames r) = "" then pure hub₃ else _) = _ at h
    rw [hnames] at h
    split_ifs at h ⊢
    · obtain rfl := Except.ok.inj h
      exact ⟨[], .refl, .nil⟩
    · obtain ⟨m, hm, h⟩ := bind_eq_ok_iff.mp h
      obtain rfl := Message.appendLastParameter_eq_ok hm
      refine ⟨[_], writes_send (hopen₁ hw) h, .cons ?_ .nil⟩
      rw [hw.net]
      rfl
  obtain ⟨channels, hms₃, hjoins⟩ := writes_foldlM_each (f := fun hub user => hub.sendJoins dest user)
    (fun _ hw h => ⟨wrote_sendJoins h, hstep (hw₂.trans hw) h⟩) h₃
  refine ⟨hello, servers, users, channels, ?_, hhello, hothers, hnicks, hjoins⟩
  rw [← List.append_assoc]
  exact hms₁.trans (hms₂.trans hms₃)

/-! ## What is written elsewhere -/

section

omit [Locale]

theorem writes_sendServer_other {excluded : Option Ref} {depth : Nat} {current children : Bool}
    (hne : dest ≠ d) (h : sendServer dest excluded depth hub s current children = .ok hub') :
    hub.Writes d [] hub' := by
  induction depth generalizing hub s hub' current children with
  | zero => cases h
  | succ depth ih =>
    rw [sendServer] at h
    split_ifs at h
    · obtain rfl := Except.ok.inj h
      exact .refl
    all_goals obtain ⟨hub₁, h₁, h⟩ := bind_eq_ok_iff.mp h
    · obtain ⟨m, _, h₁⟩ := bind_eq_ok_iff.mp h₁
      exact (writes_send_other hne h₁).nothing (writes_foldlM ih h)
    · obtain ⟨m, _, h₁⟩ := bind_eq_ok_iff.mp h₁
      obtain rfl := Except.ok.inj h
      exact writes_send_other hne h₁
    · obtain rfl := Except.ok.inj h₁
      exact writes_foldlM ih h
    · obtain rfl := Except.ok.inj h₁
      obtain rfl := Except.ok.inj h
      exact .refl

theorem writes_sendSelf_other (hne : dest ≠ d) (h : hub.sendSelf dest = .ok hub') :
    hub.Writes d [] hub' := by
  unfold sendSelf at h
  split at h
  · exact writes_sendServer_other hne h
  · cases h

theorem writes_sendJoins_other (hne : dest ≠ d) (h : hub.sendJoins dest r = .ok hub') :
    hub.Writes d [] hub' := by
  unfold sendJoins at h
  dsimp only at h
  split_ifs at h
  · obtain rfl := Except.ok.inj h
    exact .refl
  · obtain ⟨m, _, h⟩ := bind_eq_ok_iff.mp h
    exact writes_send_other hne h

theorem writes_sendNetSync_other {publishSelf : Bool} (hne : dest ≠ d)
    (h : hub.sendNetSync dest publishSelf = .ok hub') : hub.Writes d [] hub' := by
  unfold sendNetSync at h
  dsimp only at h
  split at h
  · cases h
  · obtain ⟨hub₁, h₁, h⟩ := bind_eq_ok_iff.mp h
    obtain ⟨users, _, h⟩ := bind_eq_ok_iff.mp h
    obtain ⟨hub₂, h₂, h⟩ := bind_eq_ok_iff.mp h
    have husers : hub₁.Writes d [] hub₂ := by
      refine writes_foldlM ?_ h₂
      intro hub user hub' h
      obtain ⟨m, _, h⟩ := bind_eq_ok_iff.mp h
      exact writes_send_other hne h
    have hchannels : hub₂.Writes d [] hub' := writes_foldlM (writes_sendJoins_other hne) h
    exact (writes_sendServer_other hne h₁).nothing (husers.nothing hchannels)

end

end Hub

end MyLifeHome.Irc

