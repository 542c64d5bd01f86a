import MyLifeHome.Irc.WellFormed

/-!
# Adding something to the network

New servers and users, changes of nick and joins: the networks that the operations of
`Network.java` make when they do not throw, and that these are sound.
-/
namespace MyLifeHome.Irc

variable [Locale]

namespace Network

variable {net net' : Network} {u v s t c d r : Ref} {k : String}

/-! ## Connections -/

section Connections

variable {con : Option Conn}

theorem Sound.setUserConnection (h : net.Sound) :
    (net.modifyUser u fun user => { user with connection := con }).Sound := by
  have huser : ∀ v, (net.modifyUser u fun user => { user with connection := con }).user v =
      { net.user v with
        connection := ((net.modifyUser u fun user => { user with connection := con }).user
          v).connection } := by
    intro v
    by_cases hv : v = u <;> simp [modifyUser, Function.update, hv]
  refine ⟨⟨h.nicks.congr rfl ?_, h.homes.congr rfl (fun _ => Iff.rfl) ?_ fun _ _ => rfl,
    h.memberships.congr rfl rfl ?_ fun _ _ _ => rfl, h.tree.congr rfl rfl (fun _ _ => rfl)
    (fun _ _ => rfl) (fun _ _ => rfl) fun _ _ => rfl⟩, h.users_lt, h.servers_lt, h.channels_lt, ?_,
    h.older⟩
  · intro v _
    rw [huser]
  · intro v _
    rw [huser]
  · intro v _
    rw [huser]
  · intro v hv k
    rw [huser]
    exact h.left v hv k

omit [Locale] in
theorem setServerConnection_server :
    (net.modifyServer s fun server => { server with connection := con }).server t =
      { net.server t with connection := if t = s then con else (net.server t).connection } := by
  by_cases ht : t = s <;> simp [modifyServer, Function.update, ht]

theorem Sound.setServerConnection (h : net.Sound) :
    (net.modifyServer s fun server => { server with connection := con }).Sound := by
  refine ⟨⟨h.nicks.congr rfl fun _ _ => rfl, h.homes.congr rfl (fun _ => Iff.rfl) (fun _ _ => rfl)
    ?_, h.memberships.congr rfl rfl (fun _ _ => rfl) fun _ _ _ => rfl,
    h.tree.congr rfl rfl ?_ ?_ ?_ ?_⟩, h.users_lt, h.servers_lt, h.channels_lt, h.left, ?_⟩
  · intro t _
    rw [setServerConnection_server]
  · intro t _
    rw [setServerConnection_server]
  · intro t _
    rw [setServerConnection_server]
  · intro t _
    rw [setServerConnection_server]
  · intro t _
    rw [setServerConnection_server]
  · intro t ht p hp
    rw [setServerConnection_server] at hp
    exact h.older t ht p hp

end Connections

/-! ## A new server -/

section ServerAdd

variable {name : Option String} {token : Int} {parent : Option Ref}

/-- The network with the new server. -/
def withServer (net : Network) (name : String) (token : Int) (parent : Option Ref) : Network :=
  { net with
    servers := net.servers.set (Locale.toLowerCase name) net.next
    serversByToken := net.serversByToken.set token net.next
    server := ((net.addServer ⟨name, token, parent, [], [], none⟩).addChild parent net.next).server
    next := net.next + 1 }

theorem serverAdd_eq : net.serverAdd name token parent =
    if isEmpty name then .error .illegalArgument
    else if (net.getServer (name.getD "")).isSome ∨ (net.getServerByToken token).isSome then
      .error .alreadyExists
    else .ok (net.next, net.withServer (name.getD "") token parent) := by
  unfold serverAdd
  by_cases h1 : isEmpty name
  · simp [h1]
  by_cases h2 : (net.getServer (name.getD "")).isSome
  · simp [h1, h2]
  by_cases h3 : (net.getServerByToken token).isSome
  · simp [h1, h2, h3]
  · simp only [h1, h2, h3, or_self]
    cases parent <;> rfl

theorem serverAdd_eq_ok_iff : net.serverAdd name token parent = .ok (r, net') ↔
    ¬isEmpty name ∧ net.getServer (name.getD "") = none ∧ net.getServerByToken token = none ∧
      r = net.next ∧ net' = net.withServer (name.getD "") token parent := by
  rw [serverAdd_eq]
  split_ifs with h1 h2
  · simp [h1]
  · rcases h2 with h2 | h2 <;> simp [Option.isSome_iff_ne_none.mp h2]
  · rw [not_or, Option.not_isSome_iff_eq_none, Option.not_isSome_iff_eq_none] at h2
    simp [h1, h2, eq_comm]

variable {n : String}

theorem withServer_server : (net.withServer n token parent).server t =
    if t = net.next then ⟨n, token, parent, if parent = some t then [t] else [], [], none⟩
    else { net.server t with
      children := if parent = some t then (net.server t).children ++ [net.next]
        else (net.server t).children } := by
  have hnew : ∀ a q, (net.addServer a).server q = if q = net.next then a else net.server q := by
    intro a q
    by_cases hq : q = net.next <;> simp [addServer, Function.update, hq]
  cases parent with
  | none => simpa [withServer, addChild] using hnew _ t
  | some p =>
    by_cases hp : p = t
    · subst hp
      by_cases ht : p = net.next <;> simp [withServer, addChild, modifyServer, hnew, ht]
    · have hne : t ≠ p := Ne.symm hp
      by_cases ht : t = net.next
      · subst ht
        simp [withServer, addChild, modifyServer, hnew, hp, hne]
      · simp [withServer, addChild, modifyServer, hnew, hp, hne, ht]

theorem registered_withServer (hname : net.getServer n = none) :
    (net.withServer n token parent).Registered t ↔ net.Registered t ∨ t = net.next := by
  have hnone : net.servers.get (Locale.toLowerCase n) = none := hname
  simp only [Registered, getServers, withServer, Dictionary.mem_values_iff, Dictionary.get_set]
  constructor
  · rintro ⟨k, hk⟩
    split_ifs at hk
    · exact .inr (Option.some.inj hk).symm
    · exact .inl ⟨k, hk⟩
  · rintro (⟨k, hk⟩ | rfl)
    · refine ⟨k, ?_⟩
      rw [if_neg]
      · exact hk
      · rintro rfl
        simp [hnone] at hk
    · exact ⟨_, if_pos rfl⟩

theorem Sound.next_not_registered (h : net.Sound) : ¬net.Registered net.next :=
  fun hnext => (h.servers_lt net.next hnext).ne rfl

/-- A new server below a registered one is a new leaf. -/
theorem Sound.withServer {p : Ref} (h : net.Sound) (hname : net.getServer n = none)
    (htoken : net.getServerByToken token = none) (hp : net.Registered p) :
    (net.withServer n token (some p)).Sound := by
  have hreg : ∀ t, (net.withServer n token (some p)).Registered t ↔
      net.Registered t ∨ t = net.next := fun t => registered_withServer hname
  have hold : ∀ t, net.Registered t → t ≠ net.next := fun t ht => (h.servers_lt t ht).ne
  have hserver : ∀ t, net.Registered t → (net.withServer n token (some p)).server t =
      { net.server t with
        children := if p = t then (net.server t).children ++ [net.next]
          else (net.server t).children } := by
    intro t ht
    rw [withServer_server, if_neg (hold t ht)]
    simp
  have hnew : (net.withServer n token (some p)).server net.next =
      ⟨n, token, some p, [], [], none⟩ := by
    rw [withServer_server, if_pos rfl, if_neg]
    exact fun heq => hold p hp (Option.some.inj heq)
  have hchild : ∀ q t, net.Registered q → ((net.withServer n token (some p)).Child q t ↔
      net.Child q t ∨ p = q ∧ t = net.next) := by
    intro q t hq
    rw [Child, hserver q hq]
    dsimp only
    split_ifs with hpq <;> simp [Child, hpq]
  have hnone : net.servers.get (Locale.toLowerCase n) = none := hname
  have htnone : net.serversByToken.get token = none := htoken
  refine ⟨⟨h.nicks.congr rfl fun _ _ => rfl, ⟨?_, ?_, ?_⟩,
    h.memberships.congr rfl rfl (fun _ _ => rfl) fun _ _ _ => rfl, ⟨?_, ?_, ?_, ?_, ?_, ?_⟩⟩,
    ?_, ?_, ?_, ?_, ?_⟩
  · intro u hu
    exact (hreg _).mpr (.inl (h.homes.registered u hu))
  · intro t ht
    rcases (hreg t).mp ht with ht | rfl
    · rw [hserver t ht]
      exact h.homes.nodup t ht
    · rw [hnew]
      exact List.nodup_nil
  · intro t ht u
    rcases (hreg t).mp ht with ht | rfl
    · rw [hserver t ht]
      exact h.homes.listed t ht u
    · rw [hnew]
      refine ⟨fun hu => absurd hu (by simp), ?_⟩
      rintro ⟨hu, hus⟩
      have hnext := h.homes.registered u hu
      rw [show (net.user u).server = net.next from hus] at hnext
      exact absurd hnext h.next_not_registered
  · intro k t ht
    simp only [Network.withServer, Dictionary.get_set] at ht
    split_ifs at ht with hk
    · obtain rfl := Option.some.inj ht
      rw [hnew]
      exact hk
    · rw [hserver t (Dictionary.mem_values_iff.mpr ⟨k, ht⟩)]
      exact h.tree.names k t ht
  · intro k t ht
    simp only [Network.withServer, Dictionary.get_set] at ht
    split_ifs at ht with hk
    · obtain rfl := Option.some.inj ht
      rw [hnew]
      exact hk
    · rw [hserver t ((h.tree.indexes t).mpr (Dictionary.mem_values_iff.mpr ⟨k, ht⟩))]
      exact h.tree.tokens k t ht
  · intro t
    refine (hreg t).trans ?_
    simp only [Registered, getServers, h.tree.indexes, Network.withServer,
      Dictionary.mem_values_iff, Dictionary.get_set]
    constructor
    · rintro (⟨k, hk⟩ | rfl)
      · refine ⟨k, ?_⟩
        rw [if_neg]
        · exact hk
        · rintro rfl
          simp [htnone] at hk
      · exact ⟨_, if_pos rfl⟩
    · rintro ⟨k, hk⟩
      split_ifs at hk
      · exact .inr (Option.some.inj hk).symm
      · exact .inl ⟨k, hk⟩
  · intro q hq
    rcases (hreg q).mp hq with hq | rfl
    · rw [hserver q hq]
      dsimp only
      split_ifs
      · refine (h.tree.nodup q hq).append (List.nodup_singleton _) ?_
        intro t ht hnext
        exact hold t ((h.tree.children q hq t).mp ht).1 (List.mem_singleton.mp hnext)
      · exact h.tree.nodup q hq
    · rw [hnew]
      exact List.nodup_nil
  · intro q hq t
    rcases (hreg q).mp hq with hq | rfl
    · rw [hchild q t hq, h.tree.children q hq, hreg]
      constructor
      · rintro (⟨ht, htq⟩ | ⟨rfl, rfl⟩)
        · rw [hserver t ht]
          exact ⟨.inl ht, htq⟩
        · rw [hnew]
          exact ⟨.inr rfl, rfl⟩
      · rintro ⟨ht | rfl, htq⟩
        · rw [hserver t ht] at htq
          exact .inl ⟨ht, htq⟩
        · rw [hnew] at htq
          exact .inr ⟨Option.some.inj htq, rfl⟩
    · -- the new server has no children, and nobody has it for a parent
      rw [Child, hnew]
      refine ⟨fun ht => absurd ht (by simp), ?_⟩
      rintro ⟨ht, htq⟩
      rcases (hreg t).mp ht with ht | rfl
      · rw [hserver t ht] at htq
        exact absurd (h.tree.parent_registered ht htq) h.next_not_registered
      · rw [hnew] at htq
        exact absurd (Option.some.inj htq) (hold p hp)
  · obtain ⟨root, hroot, hreach⟩ := h.tree.root
    obtain ⟨hr, hpr⟩ := getLocalServer_eq_some hroot
    refine ⟨root, getLocalServer_of_unique ((hreg root).mpr (.inl hr)) ?_ ?_, ?_⟩
    · rw [hserver root hr]
      exact hpr
    · intro t ht hpt
      rcases (hreg t).mp ht with ht | rfl
      · rw [hserver t ht] at hpt
        exact h.tree.eq_root hroot ht hpt
      · rw [hnew] at hpt
        simp at hpt
    · have hsub : ∀ {t}, net.Registered t →
          Relation.ReflTransGen (net.withServer n token (some p)).Child root t := by
        intro t ht
        have hpath := (hreach t).mpr ht
        clear ht
        induction hpath with
        | refl => exact .refl
        | @tail b a hb hba ih => exact ih.tail ((hchild b a ((hreach b).mp hb)).mpr (.inl hba))
      intro t
      rw [hreg]
      constructor
      · intro ht
        induction ht with
        | refl => exact .inl hr
        | @tail b a _ hba ih =>
          rcases ih with ih | rfl
          · rcases (hchild b a ih).mp hba with hba | ⟨_, rfl⟩
            · exact .inl ((h.tree.children b ih a).mp hba).1
            · exact .inr rfl
          · rw [Child, hnew] at hba
            simp at hba
      · rintro (ht | rfl)
        · exact hsub ht
        · exact (hsub hp).tail ((hchild p _ hp).mpr (.inr ⟨rfl, rfl⟩))
  · intro u hu
    exact Nat.lt_succ_of_lt (h.users_lt u hu)
  · intro t ht
    rcases (hreg t).mp ht with ht | rfl
    · exact Nat.lt_succ_of_lt (h.servers_lt t ht)
    · exact Nat.lt_succ_self _
  · intro k c hc
    exact Nat.lt_succ_of_lt (h.channels_lt k c hc)
  · exact h.left
  · intro t ht q hq
    rcases (hreg t).mp ht with ht | rfl
    · rw [hserver t ht] at hq
      exact h.older t ht q hq
    · rw [hnew] at hq
      obtain rfl := Option.some.inj hq
      exact h.servers_lt p hp

/-- Below a server that is not registered, the new server is not in the tree. -/
theorem registered_of_withServer {p : Ref} (hname : net.getServer n = none)
    (hwf : (net.withServer n token (some p)).WellFormed) : net.Registered p := by
  have hreg : (net.withServer n token (some p)).Registered net.next :=
    (registered_withServer hname).mpr (.inr rfl)
  have hparent : ((net.withServer n token (some p)).server net.next).parent = some p := by
    rw [withServer_server, if_pos rfl]
  rcases (registered_withServer hname).mp (hwf.tree.parent_registered hreg hparent) with hp | rfl
  · exact hp
  · exact absurd hparent (hwf.tree.parent_ne_self hreg)

/-- A new network has the server of the hub, and nothing else. -/
theorem sound_new_withServer {m : String} :
    ((new m).withServer n token none).Sound := by
  have hserver : ((new m).withServer n token none).server 0 = ⟨n, token, none, [], [], none⟩ := by
    rw [withServer_server]
    rfl
  have hname : (new m).getServer n = none := rfl
  have hreg : ∀ t, ((new m).withServer n token none).Registered t ↔ t = 0 := by
    intro t
    rw [registered_withServer hname]
    simp [new, Registered, getServers, Dictionary.values, Dictionary.empty]
  refine ⟨⟨⟨List.nodup_nil, ?_⟩, ⟨?_, ?_, ?_⟩, ⟨?_, ?_, ?_, ?_⟩, ⟨?_, ?_, ?_, ?_, ?_, ?_⟩⟩,
    ?_, ?_, ?_, ?_, ?_⟩
  · intro u hu
    simp [withServer, new] at hu
  · intro u hu
    simp [withServer, new] at hu
  · intro s hs
    rw [(hreg s).mp hs, hserver]
    exact List.nodup_nil
  · intro s hs u
    rw [(hreg s).mp hs, hserver]
    simp [withServer, new]
  · intro k c hc
    simp [withServer, new] at hc
  · intro k c hc
    simp [withServer, new] at hc
  · intro u hu
    simp [withServer, new] at hu
  · intro k c hc
    simp [withServer, new] at hc
  · intro k s hs
    simp only [withServer, new, Dictionary.get_set] at hs
    split_ifs at hs with hk
    · obtain rfl := Option.some.inj hs
      exact hk.trans (congrArg (fun s : Server => Locale.toLowerCase s.name) hserver.symm)
    · simp at hs
  · intro k s hs
    simp only [withServer, new, Dictionary.get_set] at hs
    split_ifs at hs with hk
    · obtain rfl := Option.some.inj hs
      exact hk.trans (congrArg (fun s : Server => s.token) hserver.symm)
    · simp at hs
  · intro s
    refine (hreg s).trans ?_
    simp only [withServer, new, Dictionary.mem_values_iff, Dictionary.get_set]
    constructor
    · rintro rfl
      exact ⟨token, if_pos rfl⟩
    · rintro ⟨k, hk⟩
      split_ifs at hk
      · exact (Option.some.inj hk).symm
      · simp at hk
  · intro p hp
    rw [(hreg p).mp hp, hserver]
    exact List.nodup_nil
  · intro p hp s
    rw [(hreg p).mp hp, Child, hserver, hreg]
    constructor
    · intro hs
      simp at hs
    · rintro ⟨rfl, hs⟩
      simp [hserver] at hs
  · refine ⟨0, getLocalServer_of_unique ((hreg 0).mpr rfl) (by rw [hserver]) ?_, ?_⟩
    · intro s hs _
      exact (hreg s).mp hs
    · intro s
      rw [hreg]
      constructor
      · intro hs
        induction hs with
        | refl => rfl
        | tail _ hchild ih =>
          rw [ih, Child, hserver] at hchild
          simp at hchild
      · rintro rfl
        exact .refl
  · intro u hu
    simp [withServer, new] at hu
  · intro s hs
    rw [(hreg s).mp hs]
    exact Nat.one_pos
  · intro k c hc
    simp [withServer, new] at hc
  · intro u _ k
    rfl
  · intro s hs p hp
    rw [(hreg s).mp hs, hserver] at hp
    simp at hp

end ServerAdd

/-! ## A new user -/

section UserAdd

variable {nick ident host realName : Option String}

theorem getUser_eq_none_iff {n : String} : net.getUser (some n) = none ↔
    ∀ u ∈ net.users, ¬equalsIgnoreCase (net.user u).nick n := by
  simp [getUser]

theorem getUser_eq_some {n : Option String} (h : net.getUser n = some u) :
    u ∈ net.users ∧ ∃ m, n = some m ∧ equalsIgnoreCase (net.user u).nick m := by
  cases n with
  | none => simp [getUser] at h
  | some m =>
    have hm : net.users.find? (fun user => equalsIgnoreCase (net.user user).nick m) = some u := h
    have hp := List.find?_some hm
    exact ⟨List.mem_of_find?_eq_some hm, m, rfl, hp⟩

/-- The network with the new user. -/
def withUser (net : Network) (user : User) : Network :=
  { net with
    user := Function.update net.user net.next user
    server := Function.update net.server user.server { net.server user.server with
      users := (net.server user.server).users ++ [net.next] }
    users := net.users ++ [net.next]
    next := net.next + 1 }

theorem userAdd_eq_ok_iff : net.userAdd s nick ident host realName = .ok (r, net') ↔
    (¬isEmpty nick ∧ ¬isEmpty ident ∧ ¬isEmpty host ∧ ¬isEmpty realName) ∧
      net.getUser nick = none ∧ r = net.next ∧
      net' = net.withUser ⟨s, nick.getD "", ident.getD "", host.getD "", realName.getD "", none,
        .empty⟩ := by
  unfold userAdd
  split_ifs with h1 h2
  · refine ⟨fun h => by simp at h, ?_⟩
    rintro ⟨⟨ha, hb, hc, hd⟩, _⟩
    rcases h1 with h | h | h | h <;> contradiction
  · simp [Option.isSome_iff_ne_none.mp h2]
  · rw [Option.not_isSome_iff_eq_none] at h2
    simp only [not_or] at h1
    constructor
    · intro h
      obtain ⟨rfl, rfl⟩ := Prod.mk.inj (Except.ok.inj h)
      exact ⟨h1, h2, rfl, rfl⟩
    · rintro ⟨_, _, rfl, rfl⟩
      rfl

omit [Locale] in
theorem withUser_user {user : User} :
    (net.withUser user).user v = if v = net.next then user else net.user v := by
  by_cases hv : v = net.next <;> simp [withUser, Function.update, hv]

omit [Locale] in
theorem withUser_server {user : User} : (net.withUser user).server t = { net.server t with
    users := ((net.withUser user).server t).users } := by
  by_cases ht : t = user.server <;> simp [withUser, Function.update, ht]

omit [Locale] in
theorem withUser_server_users {user : User} : ((net.withUser user).server t).users =
    if t = user.server then (net.server t).users ++ [net.next] else (net.server t).users := by
  by_cases ht : t = user.server <;> simp [withUser, Function.update, ht]

theorem Sound.next_notMem (h : net.Sound) : net.next ∉ net.users :=
  fun hnext => (h.users_lt net.next hnext).ne rfl

theorem Sound.withUser {user : User} (h : net.Sound) (hs : net.Registered user.server)
    (hnick : net.getUser (some user.nick) = none) (hchannels : user.channels = .empty) :
    (net.withUser user).Sound := by
  have hold : ∀ {v}, v ∈ net.users → v ≠ net.next := fun hv => (h.users_lt _ hv).ne
  have huser : ∀ {v}, v ∈ net.users → (net.withUser user).user v = net.user v := by
    intro v hv
    rw [withUser_user, if_neg (hold hv)]
  have hnew : (net.withUser user).user net.next = user := by rw [withUser_user, if_pos rfl]
  have hmem : ∀ {v}, v ∈ (net.withUser user).users ↔ v ∈ net.users ∨ v = net.next := by
    simp [Network.withUser]
  have hreg : ∀ t, (net.withUser user).Registered t ↔ net.Registered t := fun t => Iff.rfl
  have hfree := getUser_eq_none_iff.mp hnick
  refine ⟨⟨⟨?_, ?_⟩, ⟨?_, ?_, ?_⟩, ⟨h.memberships.names, h.memberships.nodup, ?_, ?_⟩, ?_⟩,
    ?_, ?_, ?_, ?_, ?_⟩
  · refine h.nicks.nodup.append (List.nodup_singleton _) ?_
    intro v hv hnext
    exact hold hv (List.mem_singleton.mp hnext)
  · intro v hv w hw heq
    rcases hmem.mp hv with hv | rfl <;> rcases hmem.mp hw with hw | rfl
    · rw [huser hv, huser hw] at heq
      exact h.nicks.distinct v hv w hw heq
    · rw [huser hv, hnew] at heq
      exact absurd heq (hfree v hv)
    · rw [huser hw, hnew, equalsIgnoreCase_comm] at heq
      exact absurd heq (hfree w hw)
    · rfl
  · intro v hv
    rcases hmem.mp hv with hv | rfl
    · rw [huser hv]
      exact h.homes.registered v hv
    · rw [hnew]
      exact hs
  · intro t ht
    rw [withUser_server_users]
    split_ifs
    · refine (h.homes.nodup t ht).append (List.nodup_singleton _) ?_
      intro v hv hnext
      exact hold ((h.homes.listed t ht v).mp hv).1 (List.mem_singleton.mp hnext)
    · exact h.homes.nodup t ht
  · intro t ht v
    have hlisted := h.homes.listed t ht v
    have hlast : v ∈ ((net.withUser user).server t).users ↔
        v ∈ (net.server t).users ∨ t = user.server ∧ v = net.next := by
      rw [withUser_server_users]
      split_ifs with hts <;> simp [hts]
    rw [hlast, hlisted, hmem]
    constructor
    · rintro (⟨hv, hvt⟩ | ⟨rfl, rfl⟩)
      · rw [huser hv]
        exact ⟨.inl hv, hvt⟩
      · rw [hnew]
        exact ⟨.inr rfl, rfl⟩
    · rintro ⟨hv | rfl, hvt⟩
      · rw [huser hv] at hvt
        exact .inl ⟨hv, hvt⟩
      · rw [hnew] at hvt
        exact .inr ⟨hvt.symm, rfl⟩
  · intro v hv k c hc
    rcases hmem.mp hv with hv | rfl
    · rw [huser hv] at hc
      exact h.memberships.joined v hv k c hc
    · rw [hnew, hchannels] at hc
      simp at hc
  · intro k c hc v hv
    obtain ⟨hvu, hvc⟩ := h.memberships.present k c hc v hv
    rw [huser hvu]
    exact ⟨hmem.mpr (.inl hvu), hvc⟩
  · refine h.tree.congr rfl rfl ?_ ?_ ?_ ?_ <;>
      · intro t _
        rw [withUser_server]
  · intro v hv
    rcases hmem.mp hv with hv | rfl
    · exact Nat.lt_succ_of_lt (h.users_lt v hv)
    · exact Nat.lt_succ_self _
  · intro t ht
    exact Nat.lt_succ_of_lt (h.servers_lt t ht)
  · intro k c hc
    exact Nat.lt_succ_of_lt (h.channels_lt k c hc)
  · intro v hv k
    rw [hmem, not_or] at hv
    rw [withUser_user, if_neg hv.2]
    exact h.left v hv.1 k
  · intro t ht p hp
    rw [withUser_server] at hp
    exact h.older t ht p hp

end UserAdd

/-! ## Another nick -/

section UserChangeNick

variable {nick : String}

theorem userChangeNick_eq_ok_iff {user : Option Ref} :
    net.userChangeNick user nick = .ok net' ↔ ∃ u, user = some u ∧ nick ≠ "" ∧
      net.getUser (some nick) = none ∧
      net' = net.modifyUser u fun user => { user with nick := nick } := by
  cases user with
  | none => simp [userChangeNick]
  | some u =>
    simp only [userChangeNick]
    split_ifs with h1 h2
    · simp [h1]
    · simp [Option.isSome_iff_ne_none.mp h2]
    · rw [Option.not_isSome_iff_eq_none] at h2
      simp [h1, h2, eq_comm]

omit [Locale] in
theorem setNick_user : (net.modifyUser u fun user => { user with nick := nick }).user v =
    { net.user v with nick := if v = u then nick else (net.user v).nick } := by
  by_cases hv : v = u <;> simp [modifyUser, Function.update, hv]

theorem Sound.setNick (h : net.Sound) (hfree : net.getUser (some nick) = none) :
    (net.modifyUser u fun user => { user with nick := nick }).Sound := by
  rw [getUser_eq_none_iff] at hfree
  refine ⟨⟨⟨h.nicks.nodup, ?_⟩, h.homes.congr rfl (fun _ => Iff.rfl) ?_ fun _ _ => rfl,
    h.memberships.congr rfl rfl ?_ fun _ _ _ => rfl, h.tree.congr rfl rfl (fun _ _ => rfl)
    (fun _ _ => rfl) (fun _ _ => rfl) fun _ _ => rfl⟩, h.users_lt, h.servers_lt, h.channels_lt, ?_,
    h.older⟩
  · intro v hv w hw heq
    rw [setNick_user, setNick_user] at heq
    dsimp only at heq
    split_ifs at heq with hvu hwu hwu
    · rw [hvu, hwu]
    · rw [equalsIgnoreCase_comm] at heq
      exact absurd heq (hfree w hw)
    · exact absurd heq (hfree v hv)
    · exact h.nicks.distinct v hv w hw heq
  · intro v _
    rw [setNick_user]
  · intro v _
    rw [setNick_user]
  · intro v hv k
    rw [setNick_user]
    exact h.left v hv k

end UserChangeNick

/-! ## Joining a channel -/

section UserJoin

variable {name : String}

/-- The network in which the channel of the name is registered. -/
def withChannel (net : Network) (name : String) : Network :=
  { (net.openChannel name).2 with
    channels := (net.openChannel name).2.channels.set (Locale.toLowerCase name)
      (net.openChannel name).1 }

theorem withChannel_of_some (h : net.getChannel name = some c) :
    net.withChannel name = net ∧ (net.openChannel name).1 = c := by
  rw [withChannel, openChannel, h]
  refine ⟨?_, rfl⟩
  rw [Dictionary.set_eq_self h]

theorem withChannel_of_none (h : net.getChannel name = none) :
    net.withChannel name = { net.addChannel ⟨name, []⟩ with
      channels := net.channels.set (Locale.toLowerCase name) net.next } ∧
      (net.openChannel name).1 = net.next := by
  rw [withChannel, openChannel, h]
  exact ⟨rfl, rfl⟩

theorem Sound.withChannel (h : net.Sound) (name : String) : (net.withChannel name).Sound ∧
    (net.withChannel name).channels.get (Locale.toLowerCase name) =
      some (net.openChannel name).1 := by
  cases hname : net.getChannel name with
  | some c =>
    obtain ⟨hnet, hc⟩ := withChannel_of_some hname
    rw [hnet, hc]
    exact ⟨h, hname⟩
  | none =>
    obtain ⟨hnet, hc⟩ := withChannel_of_none hname
    rw [hnet, hc]
    refine ⟨?_, Dictionary.get_set_self⟩
    have hget : ∀ {k c}, (net.channels.set (Locale.toLowerCase name) net.next).get k = some c →
        k = Locale.toLowerCase name ∧ c = net.next ∨
          net.channels.get k = some c ∧ c ≠ net.next := by
      intro k c hkc
      rw [Dictionary.get_set] at hkc
      split_ifs at hkc with hk
      · exact .inl ⟨hk, (Option.some.inj hkc).symm⟩
      · exact .inr ⟨hkc, (h.channels_lt k c hkc).ne⟩
    have hset : ∀ {k c}, net.channels.get k = some c →
        (net.channels.set (Locale.toLowerCase name) net.next).get k = some c := by
      intro k c hkc
      rw [Dictionary.get_set_of_ne, hkc]
      rintro rfl
      rw [show net.channels.get _ = none from hname] at hkc
      simp at hkc
    have hold : ∀ {c}, c ≠ net.next → (net.addChannel ⟨name, []⟩).channel c = net.channel c := by
      intro c hne
      simp [addChannel, hne]
    have hnew : (net.addChannel ⟨name, []⟩).channel net.next = ⟨name, []⟩ := by simp [addChannel]
    refine ⟨⟨h.nicks.congr rfl fun _ _ => rfl, h.homes.congr rfl (fun _ => Iff.rfl)
      (fun _ _ => rfl) fun _ _ => rfl, ⟨?_, ?_, ?_, ?_⟩, h.tree.congr rfl rfl (fun _ _ => rfl)
      (fun _ _ => rfl) (fun _ _ => rfl) fun _ _ => rfl⟩, ?_, ?_, ?_, h.left, h.older⟩
    · intro k c hkc
      rcases hget hkc with ⟨rfl, rfl⟩ | ⟨hkc, hne⟩
      · rw [hnew]
      · rw [hold hne]
        exact h.memberships.names k c hkc
    · intro k c hkc
      rcases hget hkc with ⟨rfl, rfl⟩ | ⟨hkc, hne⟩
      · rw [hnew]
        exact List.nodup_nil
      · rw [hold hne]
        exact h.memberships.nodup k c hkc
    · intro v hv k c hkc
      obtain ⟨hreg, hin⟩ := h.memberships.joined v hv k c hkc
      refine ⟨hset hreg, ?_⟩
      rw [hold (h.channels_lt k c hreg).ne]
      exact hin
    · intro k c hkc v hv
      rcases hget hkc with ⟨rfl, rfl⟩ | ⟨hkc, hne⟩
      · rw [hnew] at hv
        simp at hv
      · rw [hold hne] at hv
        exact h.memberships.present k c hkc v hv
    · intro v hv
      exact Nat.lt_succ_of_lt (h.users_lt v hv)
    · intro t ht
      exact Nat.lt_succ_of_lt (h.servers_lt t ht)
    · intro k c hkc
      rcases hget hkc with ⟨rfl, rfl⟩ | ⟨hkc, _⟩
      · exact Nat.lt_succ_self _
      · exact Nat.lt_succ_of_lt (h.channels_lt k c hkc)

/-- The end of `userJoin`, for a user who is not on the channel. -/
def enter (net : Network) (user channel : Ref) : Network :=
  (net.modifyChannel channel fun c => { c with users := c.users ++ [user] }).modifyUser user
    fun u => { u with
      channels := u.channels.set (Locale.toLowerCase (net.channel channel).name) channel }

theorem userJoin_eq_ok_iff {user : Option Ref} : net.userJoin user name = .ok net' ↔
    ∃ u, user = some u ∧ name ≠ "" ∧ net' =
      if (net.openChannel name).1 ∈ ((net.withChannel name).user u).channels.values
      then net.withChannel name
      else (net.withChannel name).enter u (net.openChannel name).1 := by
  cases user with
  | none => simp [userJoin]
  | some u =>
    simp only [userJoin]
    by_cases h1 : name = ""
    · simp [h1]
    · rw [if_neg h1]
      have hjoin : (if (net.openChannel name).1 ∈ ((net.withChannel name).user u).channels.values
            then Except.ok (net.withChannel name)
            else Except.ok ((net.withChannel name).enter u (net.openChannel name).1)) =
          (Except.ok net' : Except Fault Network) ↔ net' =
            if (net.openChannel name).1 ∈ ((net.withChannel name).user u).channels.values
            then net.withChannel name
            else (net.withChannel name).enter u (net.openChannel name).1 := by
        split_ifs <;> simp [eq_comm]
      refine Iff.trans hjoin ?_
      simp [h1]

/-- The servers and the list of users stay. -/
theorem userJoin_frame {user : Option Ref} (hok : net.userJoin user name = .ok net') :
    net'.server = net.server ∧ net'.users = net.users := by
  obtain ⟨u, _, _, rfl⟩ := userJoin_eq_ok_iff.mp hok
  have hchannel : (net.withChannel name).server = net.server ∧
      (net.withChannel name).users = net.users := by
    rw [withChannel, openChannel]
    split <;> exact ⟨rfl, rfl⟩
  split_ifs
  · exact hchannel
  · exact hchannel

theorem Sound.enter (h : net.Sound) (hu : u ∈ net.users)
    (hc : net.channels.get (Locale.toLowerCase (net.channel c).name) = some c)
    (hnot : c ∉ (net.user u).channels.values) : (net.enter u c).Sound := by
  have hchannel : ∀ d, (net.enter u c).channel d = { net.channel d with
      users := if d = c then (net.channel d).users ++ [u] else (net.channel d).users } := by
    intro d
    by_cases hd : d = c <;> simp [Network.enter, modifyUser, modifyChannel, Function.update, hd]
  have huser : ∀ v, (net.enter u c).user v = { net.user v with
      channels := if v = u
        then (net.user v).channels.set (Locale.toLowerCase (net.channel c).name) c
        else (net.user v).channels } := by
    intro v
    by_cases hv : v = u <;> simp [Network.enter, modifyUser, modifyChannel, Function.update, hv]
  have habsent : u ∉ (net.channel c).users := by
    intro hin
    exact hnot (Dictionary.mem_values_iff.mpr ⟨_, (h.memberships.present _ c hc u hin).2⟩)
  have hsame : ∀ {k d}, net.channels.get k = some d →
      (k = Locale.toLowerCase (net.channel c).name ↔ d = c) := by
    intro k d hkd
    constructor
    · rintro rfl
      rw [hkd] at hc
      exact Option.some.inj hc
    · rintro rfl
      exact h.memberships.names k d hkd
  refine ⟨⟨h.nicks.congr rfl ?_, h.homes.congr rfl (fun _ => Iff.rfl) ?_ fun _ _ => rfl,
    ⟨?_, ?_, ?_, ?_⟩, h.tree.congr rfl rfl (fun _ _ => rfl) (fun _ _ => rfl) (fun _ _ => rfl)
    fun _ _ => rfl⟩, h.users_lt, h.servers_lt, h.channels_lt, ?_, h.older⟩
  · intro v _
    rw [huser]
  · intro v _
    rw [huser]
  · intro k d hkd
    rw [hchannel]
    exact h.memberships.names k d hkd
  · intro k d hkd
    rw [hchannel]
    dsimp only
    split_ifs with hdc
    · subst hdc
      refine (h.memberships.nodup k d hkd).append (List.nodup_singleton _) ?_
      intro v hv hvu
      rw [List.mem_singleton.mp hvu] at hv
      exact habsent hv
    · exact h.memberships.nodup k d hkd
  · intro v hv k d hkd
    rw [huser] at hkd
    dsimp only at hkd
    by_cases hnew : v = u ∧ k = Locale.toLowerCase (net.channel c).name
    · obtain ⟨rfl, rfl⟩ := hnew
      rw [if_pos rfl, Dictionary.get_set_self] at hkd
      obtain rfl := Option.some.inj hkd
      rw [hchannel]
      simp only [if_true]
      exact ⟨hc, by simp⟩
    · have hold : (net.user v).channels.get k = some d := by
        split_ifs at hkd with hvu
        · rwa [Dictionary.get_set_of_ne fun hk => hnew ⟨hvu, hk⟩] at hkd
        · exact hkd
      obtain ⟨hreg, hin⟩ := h.memberships.joined v hv k d hold
      refine ⟨hreg, ?_⟩
      rw [hchannel]
      dsimp only
      split_ifs
      · exact List.mem_append_left _ hin
      · exact hin
  · intro k d hkd v hv
    rw [hchannel] at hv
    rw [huser]
    dsimp only at hv ⊢
    by_cases hnew : d = c ∧ v = u
    · obtain ⟨rfl, rfl⟩ := hnew
      rw [if_pos rfl, (hsame hkd).mpr rfl, Dictionary.get_set_self]
      exact ⟨hu, rfl⟩
    · have hold : v ∈ (net.channel d).users := by
        split_ifs at hv with hdc
        · rcases List.mem_append.mp hv with hv | hv
          · exact hv
          · exact absurd ⟨hdc, List.mem_singleton.mp hv⟩ hnew
        · exact hv
      obtain ⟨hvu, hvd⟩ := h.memberships.present k d hkd v hold
      refine ⟨hvu, ?_⟩
      split_ifs with hvu'
      · rw [Dictionary.get_set_of_ne, hvd]
        intro hk
        exact hnew ⟨(hsame hkd).mp hk, hvu'⟩
      · exact hvd
  · intro v hv k
    rw [huser]
    dsimp only
    rw [if_neg]
    · exact h.left v hv k
    · rintro rfl
      exact hv hu

theorem Sound.userJoin (h : net.Sound) (hu : u ∈ net.users)
    (hok : net.userJoin (some u) name = .ok net') : net'.Sound := by
  obtain ⟨v, hv, _, rfl⟩ := userJoin_eq_ok_iff.mp hok
  obtain rfl := Option.some.inj hv
  obtain ⟨hsound, hget⟩ := h.withChannel name
  split_ifs with hin
  · exact hsound
  · refine hsound.enter ?_ ?_ hin
    · rw [Network.withChannel, openChannel]
      split <;> exact hu
    · rw [← hsound.memberships.names _ _ hget]
      exact hget

/-- A channel lists the user, who is not on the network. -/
def Stuck (net : Network) (u : Ref) : Prop :=
  u ∉ net.users ∧
    ∃ k d, net.channels.get k = some d ∧ d < net.next ∧ u ∈ (net.channel d).users

theorem Stuck.not_wellFormed (h : net.Stuck u) : ¬net.WellFormed := by
  obtain ⟨hu, k, d, hd, _, hin⟩ := h
  intro hwf
  exact hu (hwf.memberships.present k d hd u hin).1

omit [Locale] in
theorem mem_enter_channel (h : u ∈ (net.channel d).users ∨ d = c ∧ u = v) :
    ∀ {net' : Network}, (net'.channel d).users =
      (if d = c then (net.channel d).users ++ [v] else (net.channel d).users) →
    u ∈ (net'.channel d).users := by
  intro net' heq
  rw [heq]
  rcases h with h | ⟨rfl, rfl⟩
  · split_ifs
    · exact List.mem_append_left _ h
    · exact h
  · simp

theorem enter_channel_users : ((net.enter v c).channel d).users =
    if d = c then (net.channel d).users ++ [v] else (net.channel d).users := by
  by_cases hd : d = c <;> simp [enter, modifyUser, modifyChannel, Function.update, hd]

theorem Stuck.userJoin (h : net.Stuck u) {user : Option Ref}
    (hok : net.userJoin user name = .ok net') : net'.Stuck u := by
  obtain ⟨v, _, _, rfl⟩ := userJoin_eq_ok_iff.mp hok
  obtain ⟨hu, k, d, hd, hlt, hin⟩ := h
  have hchannel : (net.withChannel name).Stuck u := by
    cases hname : net.getChannel name with
    | some c =>
      rw [(withChannel_of_some hname).1]
      exact ⟨hu, k, d, hd, hlt, hin⟩
    | none =>
      rw [(withChannel_of_none hname).1]
      refine ⟨hu, k, d, ?_, Nat.lt_succ_of_lt hlt, ?_⟩
      · rw [Dictionary.get_set_of_ne, hd]
        rintro rfl
        rw [show net.channels.get _ = none from hname] at hd
        simp at hd
      · simpa [addChannel, Function.update, hlt.ne] using hin
  split_ifs
  · exact hchannel
  · obtain ⟨hu, k, d, hd, hlt, hin⟩ := hchannel
    exact ⟨hu, k, d, hd, hlt, mem_enter_channel (.inl hin) enter_channel_users⟩

/-- Who is not on the network is stuck in a channel when joining it. -/
theorem Sound.stuck (h : net.Sound) (hu : u ∉ net.users)
    (hok : net.userJoin (some u) name = .ok net') : net'.Stuck u := by
  obtain ⟨v, hv, _, rfl⟩ := userJoin_eq_ok_iff.mp hok
  obtain rfl := Option.some.inj hv
  obtain ⟨hsound, hget⟩ := h.withChannel name
  have hu' : u ∉ (net.withChannel name).users := by
    rw [Network.withChannel, openChannel]
    split <;> exact hu
  rw [if_neg]
  · exact ⟨hu', _, _, hget, hsound.channels_lt _ _ hget,
      mem_enter_channel (.inr ⟨rfl, rfl⟩) enter_channel_users⟩
  · intro hin
    obtain ⟨k, hk⟩ := Dictionary.mem_values_iff.mp hin
    rw [hsound.left u hu' k] at hk
    simp at hk

end UserJoin

end Network

end MyLifeHome.Irc
