import MyLifeHome.Irc.Syncing

/-!
# A new neighbour

Two hubs that get a link introduce themselves. Each tells its other neighbours of the new server,
and tells the new neighbour of all that is behind it, in an order in which it can be told.
-/
namespace MyLifeHome.Irc

open Checked Replication Visits

variable [Locale] {V : Type} [DecidableEq V] {L : Layout V} {h k v : V} {w w' x : View V}

/-! ## Lists of names -/

section

omit [Locale]

theorem mem_intercalate {sep : String} {names : List String} {c : Char}
    (hc : c ∈ (sep.intercalate names).toList) : c ∈ sep.toList ∨ ∃ name ∈ names, c ∈ name.toList := by
  induction names with
  | nil => simp at hc
  | cons name names ih =>
    by_cases hne : names = []
    · subst hne
      exact .inr ⟨name, List.mem_cons_self, by simpa using hc⟩
    · rw [String.intercalate_cons_of_ne_nil hne, String.toList_append, String.toList_append] at hc
      rcases List.mem_append.mp hc with hc | hc
      · refine (List.mem_append.mp hc).symm.imp_right fun hc => ⟨name, List.mem_cons_self, hc⟩
      · rcases ih hc with hc | ⟨other, hother, hc⟩
        · exact .inl hc
        · exact .inr ⟨other, List.mem_cons_of_mem name hother, hc⟩

theorem intercalate_eq_empty_iff {sep : String} {names : List String} (hnames : "" ∉ names) :
    sep.intercalate names = "" ↔ names = [] := by
  refine ⟨fun h => ?_, fun h => by rw [h, String.intercalate_nil]⟩
  cases names with
  | nil => rfl
  | cons name names =>
    have hname : name ≠ "" := fun heq => hnames (heq ▸ List.mem_cons_self)
    by_cases hne : names = []
    · subst hne
      rw [String.intercalate_singleton] at h
      exact absurd h hname
    · rw [String.intercalate_cons_of_ne_nil hne] at h
      simp [hname] at h

/-- Names of channels are told in one parameter. -/
theorem isText_intercalate {names : List String} (hnames : ∀ name ∈ names, IsChannelName name) :
    IsText (",".intercalate names) := by
  refine isText_of_notMem (fun c hc => ?_) fun hc => ?_
  · rcases mem_intercalate hc with hc | ⟨name, hname, hc⟩
    · obtain rfl : c = ',' := by simpa using hc
      decide
    · exact (hnames name hname).2 c hc
  · rcases mem_intercalate hc with hc | ⟨name, hname, hc⟩
    · exact absurd hc (by decide)
    · exact (isParameter_iff.mp (hnames name hname).word.1).2.2 hc

end

/-! ## Lists of updates -/

omit [Locale] in
theorem forall₂_map_of_mem {α β γ : Type} {R : α → β → Prop} {S : α → γ → Prop} {f : β → γ}
    {as : List α} {bs : List β} (h : List.Forall₂ R as bs) (hf : ∀ a, ∀ b ∈ bs, R a b → S a (f b)) :
    List.Forall₂ S as (bs.map f) := by
  refine List.forall₂_map_right_iff.mpr (List.forall₂_iff_zip.mpr ⟨h.length_eq, fun {a b} hab => ?_⟩)
  exact hf a b (List.of_mem_zip hab).2 (List.forall₂_zip h hab)

namespace Update

variable {α : Type} {list : List α} {a : α → Update V} {own : α → V × Conn}
  {p q : α → Option Person}

/-- Each update of the list is about another user. -/
theorem fitAll_users (list : List α) (a : α → Update V) (own : α → V × Conn) (p q : α → Option Person)
    (hnodup : list.Nodup) (hown : ∀ r ∈ list, ∀ r' ∈ list, own r = own r' → r = r')
    (hstep : ∀ r ∈ list, ∀ x : View V, x.user (own r) = p r → (x (own r).1).known →
      (a r).fits L x ∧ (a r).apply x = x.setUser (own r) (q r))
    (hp : ∀ r ∈ list, x.user (own r) = p r) (hknown : ∀ r ∈ list, (x (own r).1).known) :
    ∃ y : View V, (updates L).applyAll (list.map a) x = y ∧ (updates L).FitAll (list.map a) x ∧
      (∀ v, (y v).known ↔ (x v).known) ∧ (∀ r ∈ list, y.user (own r) = q r) ∧
      ∀ u, (∀ r ∈ list, own r ≠ u) → y.user u = x.user u := by
  refine ⟨_, rfl, ?_⟩
  induction list generalizing x with
  | nil => exact ⟨trivial, fun _ => Iff.rfl, by simp, fun _ _ => rfl⟩
  | cons r list ih =>
    obtain ⟨hr, hnodup⟩ := List.nodup_cons.mp hnodup
    obtain ⟨hpr, hplist⟩ := List.forall_mem_cons.mp hp
    obtain ⟨hkr, hklist⟩ := List.forall_mem_cons.mp hknown
    obtain ⟨hfits, happly⟩ := hstep r List.mem_cons_self x hpr hkr
    have hne : ∀ r' ∈ list, own r' ≠ own r := by
      intro r' hr' heq
      obtain rfl := hown r' (List.mem_cons_of_mem r hr') r List.mem_cons_self heq
      exact hr hr'
    obtain ⟨hall, hknown', hq, hothers⟩ := ih (x := (a r).apply x) hnodup
      (fun r₁ h₁ r₂ h₂ => hown r₁ (List.mem_cons_of_mem r h₁) r₂ (List.mem_cons_of_mem r h₂))
      (fun r' hr' => hstep r' (List.mem_cons_of_mem r hr'))
      (fun r' hr' => by rw [happly, View.user_setUser, if_neg (hne r' hr'), hplist r' hr'])
      (fun r' hr' => by
        rw [happly, View.known_setUser]
        exact hklist r' hr')
    refine ⟨⟨hfits, hall⟩, ?_, ?_, ?_⟩
    · intro v
      refine (hknown' v).trans ?_
      rw [happly, View.known_setUser]
    · refine List.forall_mem_cons.mpr ⟨?_, hq⟩
      refine (hothers _ hne).trans ?_
      rw [happly, View.user_setUser, if_pos rfl]
    · intro u hu
      obtain ⟨hru, hulist⟩ := List.forall_mem_cons.mp hu
      refine (hothers u hulist).trans ?_
      rw [happly, View.user_setUser, if_neg hru.symm]

end Update

/-! ## What a new neighbour is told -/

namespace Hub

variable {hub hub' : Hub} {c : Conn} {list : List Ref} {K : Set Ref} {root target s r : Ref}
  {vert : Ref → V} {m : Message}

/-- A registered server is that of a vertex which is known. -/
def Places (hub : Hub) (L : Layout V) (w : View V) (vert : Ref → V) : Prop :=
  ∀ s, hub.net.Registered s → (w (vert s)).known ∧ (hub.net.server s).name = L.name (vert s)

omit [DecidableEq V] in
theorem Shows.exists_places (hs : hub.Shows L h w) : ∃ vert, hub.Places L w vert := by
  have hvert : ∀ s, ∃ v, hub.net.Registered s → (w v).known ∧ (hub.net.server s).name = L.name v := by
    intro s
    by_cases hreg : hub.net.Registered s
    · obtain ⟨v, hv, hname, _⟩ := hs.depicts.servers s hreg
      exact ⟨v, fun _ => ⟨hv, hname⟩⟩
    · exact ⟨h, fun hyes => absurd hyes hreg⟩
  exact Classical.skolem.mp hvert

namespace Places

section

omit [DecidableEq V]

theorem eq_of_vert (hp : hub.Places L w vert) (hsound : hub.net.Sound) (hs : hub.net.Registered s)
    (hr : hub.net.Registered r) (heq : vert s = vert r) : s = r :=
  Network.Depicts.eq_of_name hsound hs hr (by rw [(hp s hs).2, (hp r hr).2, heq])

theorem eq_vert (hL : L.Proper) (hp : hub.Places L w vert) (hs : hub.net.Registered s)
    (hname : (hub.net.server s).name = L.name v) : vert s = v :=
  hL.names _ _ (by rw [← (hp s hs).2, hname])

end

end Places

/-- The server is announced below its parent. -/
def serverUpdate (hub : Hub) (vert : Ref → V) (s : Ref) : Update V :=
  .server (vert s) (vert ((hub.net.server s).parent.getD s))

/-- Each server can be told when those before it have been. -/
theorem Places.fitAll_servers (hp : hub.Places L w vert) (hsound : hub.net.Sound)
    (hrooted : Rooted hub.net.children K list) (hreg : ∀ s ∈ list, hub.net.Registered s)
    (hKreg : ∀ s ∈ K, hub.net.Registered s) (hnodup : list.Nodup) (hK : ∀ s ∈ K, (x (vert s)).known)
    (hnew : ∀ s ∈ list, ¬(x (vert s)).known) : ∃ y : View V,
      (Update.updates L).applyAll (list.map (hub.serverUpdate vert)) x = y ∧
      (Update.updates L).FitAll (list.map (hub.serverUpdate vert)) x ∧
      (∀ v, (y v).known ↔ (x v).known ∨ ∃ s ∈ list, vert s = v) ∧ ∀ u, y.user u = x.user u := by
  refine ⟨_, rfl, ?_⟩
  induction list generalizing K x with
  | nil => exact ⟨trivial, by simp, fun _ => rfl⟩
  | cons s list ih =>
    obtain ⟨⟨p, hpK, hchild⟩, hrooted⟩ := hrooted
    obtain ⟨hs, hlist⟩ := List.forall_mem_cons.mp hreg
    obtain ⟨hsnew, hlistnew⟩ := List.forall_mem_cons.mp hnew
    obtain ⟨hnot, hnodup⟩ := List.nodup_cons.mp hnodup
    have hparent := ((hsound.tree.children p (hKreg p hpK) s).mp hchild).2
    have happly : (hub.serverUpdate vert s).apply x = x.setKnown (vert s) := rfl
    have hfits : (hub.serverUpdate vert s).fits L x := by
      rw [serverUpdate, hparent]
      exact ⟨hK p hpK, hsnew⟩
    obtain ⟨hall, hknown, husers⟩ := ih (x := (hub.serverUpdate vert s).apply x) hrooted hlist
      (fun t ht => (Set.mem_insert_iff.mp ht).elim (fun heq => heq ▸ hs) (hKreg t)) hnodup
      (fun t ht => by
        rw [happly, View.known_setKnown]
        exact (Set.mem_insert_iff.mp ht).imp (fun heq => by rw [heq]) (hK t))
      (fun t ht hknown => by
        rw [happly, View.known_setKnown] at hknown
        refine hknown.elim (fun heq => hnot ?_) (hlistnew t ht)
        exact hp.eq_of_vert hsound (hlist t ht) hs heq ▸ ht)
    refine ⟨⟨hfits, hall⟩, fun v => ?_, fun u => ?_⟩
    · refine (hknown v).trans ?_
      simp only [happly, View.known_setKnown, List.mem_cons, exists_eq_or_imp]
      rw [or_assoc, or_left_comm, eq_comm (b := vert s)]
    · refine (husers u).trans ?_
      rw [happly, View.user_setKnown]

/-- The user is announced before the channels. -/
def userUpdate (hub : Hub) (L : Layout V) (r : Ref) : Update V :=
  .arrive (L.owner (hub.net.user r).nick) { hub.net.person r with channels := ∅ }

def channelsUpdate (hub : Hub) (L : Layout V) (r : Ref) : Update V :=
  .join (L.owner (hub.net.user r).nick) (hub.net.user r).nick (hub.channelNames r)

namespace Shows

section

omit [DecidableEq V]

theorem isChannelName (hs : hub.Shows L h w) (hopen : ¬hub.closed c) {name : String}
    (hname : name ∈ hub.channelNames r) : IsChannelName name := by
  obtain ⟨channel, hchannel, rfl⟩ := List.mem_map.mp hname
  obtain ⟨k, hget⟩ := Dictionary.mem_values_iff.mp hchannel
  exact hs.depicts.channels k channel ((hs.exists_ready hopen).sound.joined hget).1

theorem keys_channelNames (hs : hub.Shows L h w) (hopen : ¬hub.closed c) :
    Update.keys (hub.channelNames r) = (hub.net.person r).channels := by
  have hsound := (hs.exists_ready hopen).sound
  have hkey : ∀ {k channel}, (hub.net.user r).channels.get k = some channel →
      k = Locale.toLowerCase (hub.net.channel channel).name := fun {k channel} hget =>
    hsound.memberships.names k channel (hsound.joined hget).1
  ext k
  constructor
  · rintro ⟨name, hname, rfl⟩
    obtain ⟨channel, hchannel, rfl⟩ := List.mem_map.mp hname
    obtain ⟨k, hget⟩ := Dictionary.mem_values_iff.mp hchannel
    exact Option.isSome_iff_exists.mpr ⟨channel, hkey hget ▸ hget⟩
  · intro hk
    obtain ⟨channel, hget⟩ := Option.isSome_iff_exists.mp hk
    exact ⟨_, List.mem_map_of_mem (Dictionary.mem_values_iff.mpr ⟨k, hget⟩), (hkey hget).symm⟩

theorem announced_channels (hcap : KeepsCapitals) (hs : hub.Shows L h w) (hopen : ¬hub.closed c)
    (hr : r ∈ hub.net.users) (hne : hub.channelNames r ≠ []) (hm : hub.TellsChannels m r) :
    Update.Announced L m (hub.channelsUpdate L r) := by
  subst hm
  have hpasses : Message.Passes ⟨some (hub.net.user r).nick, "JOIN",
      [] ++ [",".intercalate (hub.channelNames r)], true⟩ :=
    passes_of_capitals hcap (by decide) (by decide)
      (fun s heq => Option.some.inj heq ▸ (hs.isNick hr).word) (by simp)
      (.inr ⟨rfl, isText_intercalate fun name hname => hs.isChannelName hopen hname⟩)
  exact ⟨hpasses, hne, true, rfl⟩

theorem announced_others (hcap : KeepsCapitals) (hL : L.Proper) (hs : hub.Shows L h w)
    (hopen : ¬hub.closed c) (hp : hub.Places L w vert) (hreg : hub.net.Registered s)
    (hparent : (hub.net.server s).parent ≠ none) (hm : hub.TellsServer m s) :
    Update.Announced L m (hub.serverUpdate vert s) := by
  obtain ⟨p, hpparent⟩ := Option.ne_none_iff_exists'.mp hparent
  have hpreg := (hs.exists_ready hopen).sound.tree.parent_registered hreg hpparent
  rw [TellsServer, hpparent, Option.map_some, (hp p hpreg).2] at hm
  rw [serverUpdate, hpparent]
  exact hs.announced_server hcap hL hreg (hp s hreg).2 hm

theorem greets_root (hcap : KeepsCapitals) (hL : L.Proper) (hs : hub.Shows L h w)
    (hroot : hub.net.getLocalServer = some root) (hm : hub.TellsServer m root) : Greets L h m := by
  obtain ⟨hreg, hparent⟩ := Network.getLocalServer_eq_some hroot
  obtain ⟨r, hr, hname⟩ := hs.depicts.root
  obtain rfl := Option.some.inj (hroot.symm.trans hr)
  rw [TellsServer, hparent] at hm
  exact hs.passes_serverMessage hcap hL hreg hname (by simp) hm

/-- A user who is on no channel is as announced. -/
theorem person_of_nil (hs : hub.Shows L h w) (hopen : ¬hub.closed c)
    (hnil : hub.channelNames r = []) : { hub.net.person r with channels := ∅ } = hub.net.person r := by
  have hkeys := hs.keys_channelNames (r := r) hopen
  rw [hnil] at hkeys
  have hempty : (hub.net.person r).channels = ∅ := by
    rw [← hkeys]
    simp [Update.keys]
  rw [← hempty]

end

end Shows

/-- Whoever knows no more than the hub itself on its side comes to what the hub knows there. -/
def Brings (L : Layout V) (h k : V) (as : List (Update V)) (w : View V) : Prop :=
  (∀ a ∈ as, a.homes ⊆ side L.graph h k) ∧ ∀ x : View V,
    (∀ v ∈ side L.graph h k, (x v).known ↔ v = h) →
    (∀ u : V × Conn, u.1 ∈ side L.graph h k → x.user u = none) →
    (Update.updates L).FitAll as x ∧
      Set.EqOn ((Update.updates L).applyAll as x) w (side L.graph h k)

namespace Shows

/-- The servers are told in an order in which they can be, then the users, then the channels. -/
theorem brings_lists (hL : L.Proper) (hs : hub.Shows L h w) (hopen : ¬hub.closed c)
    (hp : hub.Places L w vert) (hroot : hub.net.getLocalServer = some root)
    (htarget : target ∈ hub.net.children root) (hleaf : hub.net.children target = [])
    (hname : (hub.net.server target).name = L.name k) (hadj : L.graph.Adj h k)
    (hfar : ∀ v, (w v).known → v = k ∨ v ∈ side L.graph h k) {users members : List Ref}
    (husers : ∀ r, r ∈ users ↔ r ∈ hub.net.users ∧ (hub.net.user r).server ≠ target)
    (hmembers : ∀ r, r ∈ members ↔ r ∈ users ∧ hub.channelNames r ≠ [])
    (hnodup : users.Nodup) (hnodup' : members.Nodup) :
    Brings L h k ((hub.net.others root target).map (hub.serverUpdate vert) ++
      (users.map (hub.userUpdate L) ++ members.map (hub.channelsUpdate L))) w := by
  have hsound := (hs.exists_ready hopen).sound
  obtain ⟨hrreg, hrparent⟩ := Network.getLocalServer_eq_some hroot
  obtain ⟨htreg, _⟩ := (hsound.tree.children root hrreg target).mp htarget
  have hothers := fun t => hsound.mem_others_iff (t := t) hroot htarget hleaf
  have hvroot : vert root = h := by
    obtain ⟨r, hr, hrname⟩ := hs.depicts.root
    obtain rfl := Option.some.inj (hroot.symm.trans hr)
    exact hp.eq_vert hL hrreg hrname
  have hvtarget : vert target = k := hp.eq_vert hL htreg hname
  have hnotk : k ∉ side L.graph h k := notMem_side hadj.ne
  -- the servers that are told are those on the hub's side
  have hside : ∀ t, hub.net.Registered t → t ≠ target → vert t ∈ side L.graph h k := by
    intro t ht hne
    refine (hfar _ (hp t ht).1).resolve_left fun heq => hne ?_
    exact hp.eq_of_vert hsound ht htreg (heq.trans hvtarget.symm)
  have hhome : ∀ r ∈ hub.net.users, hub.net.Registered (hub.net.user r).server ∧
      vert (hub.net.user r).server = (L.owner (hub.net.user r).nick).1 := by
    intro r hr
    have hreg := hsound.homes.registered r hr
    exact ⟨hreg, hp.eq_vert hL hreg (hs.depicts.homes r hr)⟩
  have howner : ∀ r ∈ hub.net.users, ∀ r' ∈ hub.net.users, L.owner (hub.net.user r).nick =
      L.owner (hub.net.user r').nick → r = r' := fun r hr r' hr' heq =>
    hs.depicts.eq_of_owner hsound hr hr' heq
  have hmem : ∀ r ∈ users, r ∈ hub.net.users := fun r hr => ((husers r).mp hr).1
  have husersides : ∀ r ∈ users, (L.owner (hub.net.user r).nick).1 ∈ side L.graph h k := by
    intro r hr
    obtain ⟨hr, hne⟩ := (husers r).mp hr
    rw [← (hhome r hr).2]
    exact hside _ (hhome r hr).1 hne
  refine ⟨?_, fun x hxknown hxusers => ?_⟩
  · intro a ha
    rcases List.mem_append.mp ha with ha | ha
    · obtain ⟨t, ht, rfl⟩ := List.mem_map.mp ha
      obtain ⟨htreg', htroot, htne⟩ := (hothers t).mp ht
      obtain ⟨p, hparent⟩ := Option.ne_none_iff_exists'.mp
        fun hnone => htroot (hsound.tree.eq_root hroot htreg' hnone)
      have hpne : p ≠ target := by
        rintro rfl
        have hchild := (hsound.tree.children p htreg t).mpr ⟨htreg', hparent⟩
        change t ∈ hub.net.children p at hchild
        simp [hleaf] at hchild
      have hpside := hside p (hsound.tree.parent_registered htreg' hparent) hpne
      rintro v (rfl | hv)
      · exact hside t htreg' htne
      · rw [Set.mem_singleton_iff.mp hv, hparent]
        exact hpside
    · rcases List.mem_append.mp ha with ha | ha
      · obtain ⟨r, hr, rfl⟩ := List.mem_map.mp ha
        exact Set.singleton_subset_iff.mpr (husersides r hr)
      · obtain ⟨r, hr, rfl⟩ := List.mem_map.mp ha
        exact Set.singleton_subset_iff.mpr (husersides r ((hmembers r).mp hr).1)
  -- the servers
  obtain ⟨y₁, hy₁, hfit₁, hknown₁, husers₁⟩ := hp.fitAll_servers (L := L) (x := x) (K := {root})
    hsound Network.rooted_others
    (fun t ht => ((hothers t).mp ht).1) (fun t ht => Set.mem_singleton_iff.mp ht ▸ hrreg)
    (List.nodup_cons.mp (hsound.nodup_others hrreg)).2
    (fun t ht => by
      rw [Set.mem_singleton_iff.mp ht, hvroot]
      exact (hxknown h mem_side_self).mpr rfl)
    (fun t ht hknown => by
      obtain ⟨htreg, htroot, htne⟩ := (hothers t).mp ht
      have heq := (hxknown _ (hside t htreg htne)).mp hknown
      exact htroot (hp.eq_of_vert hsound htreg hrreg (heq.trans hvroot.symm)))
  have hknown : ∀ v ∈ side L.graph h k, (y₁ v).known ↔ (w v).known := by
    intro v hv
    rw [hknown₁ v, hxknown v hv]
    constructor
    · rintro (rfl | ⟨t, ht, rfl⟩)
      · exact hvroot ▸ (hp root hrreg).1
      · exact (hp t ((hothers t).mp ht).1).1
    · intro hvknown
      obtain ⟨t, ht, htname⟩ := hs.depicts.known v hvknown
      obtain rfl := hp.eq_vert hL ht htname
      refine or_iff_not_imp_left.mpr fun hne => ⟨t, (hothers t).mpr ⟨ht, ?_, ?_⟩, rfl⟩
      · rintro rfl
        exact hne hvroot
      · rintro rfl
        exact hnotk (hvtarget ▸ hv)
  -- the users
  have hyknown : ∀ r ∈ users, (y₁ (L.owner (hub.net.user r).nick).1).known := by
    intro r hr
    rw [hknown _ (husersides r hr), ← (hhome r (hmem r hr)).2]
    exact (hp _ (hhome r (hmem r hr)).1).1
  obtain ⟨y₂, hy₂, hfit₂, hknown₂, hself₂, hothers₂⟩ := Update.fitAll_users (L := L) (x := y₁) users
    (hub.userUpdate L) (fun r => L.owner (hub.net.user r).nick) (fun _ => none)
    (fun r => some { hub.net.person r with channels := ∅ }) hnodup
    (fun r hr r' hr' => howner r (hmem r hr) r' (hmem r' hr'))
    (fun r hr y hnone hyknown => by
      have hlegible := hs.depicts.legible r (hmem r hr)
      exact ⟨⟨⟨hlegible.nick, hlegible.ident, hlegible.host, hlegible.realName⟩, rfl, hyknown,
        hnone⟩, rfl⟩)
    (fun r hr => (husers₁ _).trans (hxusers _ (husersides r hr))) hyknown
  -- the channels
  have hmem' : ∀ r ∈ members, r ∈ users := fun r hr => ((hmembers r).mp hr).1
  obtain ⟨y₃, hy₃, hfit₃, hknown₃, hself₃, hothers₃⟩ := Update.fitAll_users (L := L) (x := y₂) members
    (hub.channelsUpdate L) (fun r => L.owner (hub.net.user r).nick)
    (fun r => some { hub.net.person r with channels := ∅ }) (fun r => some (hub.net.person r)) hnodup'
    (fun r hr r' hr' => howner r (hmem r (hmem' r hr)) r' (hmem r' (hmem' r' hr')))
    (fun r hr y hy _ => by
      refine ⟨⟨fun name hname => hs.isChannelName hopen hname, _, hy, rfl⟩, ?_⟩
      simp [channelsUpdate, Update.apply, hy, hs.keys_channelNames hopen])
    (fun r hr => hself₂ r (hmem' r hr))
    (fun r hr => (hknown₂ _).mpr (hyknown r (hmem' r hr)))
  rw [Updates.fitAll_append, Updates.applyAll_append, Updates.fitAll_append, Updates.applyAll_append,
    hy₁, hy₂, hy₃]
  refine ⟨⟨hfit₁, hfit₂, hfit₃⟩, fun v hv => Home.ext ?_ (funext fun d => ?_)⟩
  · exact propext ((hknown₃ v).trans ((hknown₂ v).trans (hknown v hv)))
  · change y₃.user (v, d) = w.user (v, d)
    by_cases hex : ∃ r ∈ users, L.owner (hub.net.user r).nick = (v, d)
    · obtain ⟨r, hr, hrv⟩ := hex
      have hw := hs.depicts.users r (hmem r hr)
      rw [hrv] at hw
      rw [hw]
      by_cases hrm : r ∈ members
      · exact hrv ▸ hself₃ r hrm
      · have hnil : hub.channelNames r = [] := by
          by_contra hne
          exact hrm ((hmembers r).mpr ⟨hr, hne⟩)
        rw [hothers₃ (v, d), ← hrv, hself₂ r hr, hs.person_of_nil hopen hnil]
        intro r' hr' heq
        obtain rfl := howner r' (hmem r' (hmem' r' hr')) r (hmem r hr) (heq.trans hrv.symm)
        exact hrm hr'
    · have hnone : w.user (v, d) = none := by
        refine Option.eq_none_iff_forall_ne_some.mpr fun p hwp => hex ?_
        obtain ⟨r, hr, hrv, _⟩ := hs.depicts.present (v, d) p hwp
        refine ⟨r, (husers r).mpr ⟨hr, fun heq => ?_⟩, hrv⟩
        have hvk := (hhome r hr).2
        rw [heq, hvtarget, hrv] at hvk
        exact hnotk (hvk ▸ hv)
      have hnot : ∀ r ∈ users, L.owner (hub.net.user r).nick ≠ (v, d) := fun r hr heq =>
        hex ⟨r, hr, heq⟩
      rw [hothers₃ (v, d) fun r hr => hnot r (hmem' r hr), hothers₂ (v, d) hnot, husers₁, hnone]
      exact hxusers (v, d) hv

theorem brings_sendNetSync {publishSelf : Bool} (hcap : KeepsCapitals) (hL : L.Proper)
    (hs : hub.Shows L h w) (hadj : L.graph.Adj h k)
    (hstr : hub.structures (L.link h k) = .server target) (hleaf : hub.net.children target = [])
    (hfar : ∀ v, (w v).known → v = k ∨ v ∈ side L.graph h k)
    (hok : hub.sendNetSync (L.link h k) publishSelf = .ok hub') :
    ∃ hello ms as, hub.Writes (L.link h k) (hello ++ ms) hub' ∧
      List.Forall₂ (fun m v => Greets L v m) hello (if publishSelf then [h] else []) ∧
      List.Forall₂ (Update.Announced L) ms as ∧ Brings L h k as w := by
  have hopen := (hs.ends k hadj).1
  have hready := hs.exists_ready hopen
  have hsound := hready.sound
  obtain ⟨root, hroot⟩ := hready.exists_local
  obtain ⟨hpeer, g, hg, hlink, hname⟩ := hs.links _ _ hstr
  obtain rfl := hL.links h k g hadj hg hlink
  have htarget : target ∈ hub.net.children root := (hready.peer_of_mem hroot).mpr hpeer
  have hne : root ≠ target := (hsound.forest.older (Network.getLocalServer_eq_some hroot).1 htarget).ne
  have hothers := fun t => hsound.mem_others_iff (t := t) hroot htarget hleaf
  obtain ⟨hello, servers, users, channels, hwrites, hhello, hservers, husers, hchannels⟩ :=
    writes_sendNetSync hsound hopen hroot hstr hne (fun hmem => ((hothers _).mp hmem).2.2 rfl) hok
  have hmem := fun r => hsound.mem_users_others (r := r) hroot htarget hleaf
  have hnodup := hsound.nodup_users_others hroot htarget hleaf
  set list := (root :: hub.net.others root target).flatMap fun t => (hub.net.server t).users
  have hfilter : (list.flatMap fun r => if ",".intercalate (hub.channelNames r) = "" then [] else [r]) =
      list.filter fun r => hub.channelNames r ≠ [] := by
    have hnames : ∀ r, ",".intercalate (hub.channelNames r) = "" ↔ hub.channelNames r = [] := by
      intro r
      refine intercalate_eq_empty_iff fun hempty => ?_
      exact (isParameter_iff.mp (hs.isChannelName hopen hempty).word.1).1 rfl
    simp only [hnames]
    induction list with
    | nil => rfl
    | cons r list ih =>
      by_cases hr : hub.channelNames r = []
      · simp [hr, ih]
      · simp [hr, ih]
  rw [hfilter] at hchannels
  obtain ⟨vert, hp⟩ := hs.exists_places
  refine ⟨hello, servers ++ (users ++ channels), _, hwrites, ?_, ?_, hs.brings_lists hL hopen hp hroot
    htarget hleaf hname hadj hfar hmem
    (show ∀ r, r ∈ list.filter (fun r => hub.channelNames r ≠ []) ↔ r ∈ list ∧ hub.channelNames r ≠ []
      from fun r => by simp) hnodup (hnodup.filter _)⟩
  · split_ifs at hhello ⊢
    · obtain ⟨m, ms, hm, hms, rfl⟩ := List.forall₂_cons_right_iff.mp hhello
      obtain rfl := List.forall₂_nil_right_iff.mp hms
      exact .cons (hs.greets_root hcap hL hroot hm) .nil
    · exact List.forall₂_nil_right_iff.mp hhello ▸ .nil
  · refine List.rel_append (forall₂_map_of_mem hservers fun m t ht hm => ?_)
      (List.rel_append (forall₂_map_of_mem husers fun m r hr hm => ?_)
        (forall₂_map_of_mem hchannels fun m r hr hm => ?_))
    · obtain ⟨ht, htroot, _⟩ := (hothers t).mp ht
      exact hs.announced_others hcap hL hopen hp ht
        (fun hnone => htroot (hsound.tree.eq_root hroot ht hnone)) hm
    · exact hs.announced_newUser hcap hL hopen ((hmem r).mp hr).1 rfl (by decide) (by decide) hm
    · obtain ⟨hr, hne⟩ := List.mem_filter.mp hr
      exact hs.announced_channels hcap hopen ((hmem r).mp hr).1 (by simpa using hne) hm

/-! ## Meeting -/

/-- The neighbour is a server of the hub's from now on. -/
theorem link (hL : L.Proper) (hs : hub.Shows L h w) (hadj : L.graph.Adj h k)
    (hstr : hub.structures (L.link h k) = .new) (hnew : ¬(w k).known)
    (hroot : hub.net.getLocalServer = some root) :
    Shows (({ hub with net := hub.net.withPeer (L.name k) (L.token k) root (L.link h k) } : Hub).setStructure
      (L.link h k) (.server hub.net.next)) L h (w.setKnown k) := by
  have hopen := (hs.ends k hadj).1
  have hready := hs.exists_ready hopen
  have hsound := hready.sound
  obtain ⟨hrreg, _⟩ := Network.getLocalServer_eq_some hroot
  have hname := hs.depicts.getServer_eq_none hL hsound hnew
  have htoken := hs.depicts.getServerByToken_eq_none hL hsound hnew
  set c := L.link h k with hc
  set net' := hub.net.withPeer (L.name k) (L.token k) root c with hnet'
  have hserver : ∀ t, net'.server t = { (hub.net.withServer (L.name k) (L.token k) (some root)).server t with
      connection := (net'.server t).connection } := by
    intro t
    rw [hnet', Network.withPeer, Network.setServerConnection_server]
  have hparent : ∀ t, (net'.server t).parent =
      ((hub.net.withServer (L.name k) (L.token k) (some root)).server t).parent := by
    intro t
    rw [hserver t]
  have hsame : net'.getLocalServer =
      (hub.net.withServer (L.name k) (L.token k) (some root)).getLocalServer :=
    Network.getLocalServer_congr rfl hparent
  have hlocal : net'.getLocalServer = hub.net.getLocalServer :=
    hsame.trans (Network.getLocalServer_withServer hsound hname htoken hrreg)
  have hnewserver : (net'.server hub.net.next).name = L.name k ∧
      (net'.server hub.net.next).parent = some root := by
    rw [hserver, Network.withServer_server, if_pos rfl]
    exact ⟨rfl, rfl⟩
  have hreg : net'.Registered hub.net.next := by
    change (hub.net.withServer (L.name k) (L.token k) (some root)).Registered hub.net.next
    exact (Network.registered_withServer hname).mpr (.inr rfl)
  have hstructures : ∀ d, d ≠ c → Function.update hub.structures c (.server hub.net.next) d =
      hub.structures d := fun d hd => Function.update_of_ne hd ..
  refine ⟨IrcServer.steady_of_ready (hready.link hname htoken hroot (hL.words k).1
    ⟨_, _, _, hstr⟩ hopen), (hs.depicts.withServer hL hsound hnew hrreg).setServerConnection,
    ?_, ?_, ?_, ?_, ?_, hs.hosts, hs.dials⟩
  · intro d s hd
    by_cases hdc : d = c
    · subst hdc
      obtain rfl := Connectable.server.inj ((Function.update_self ..).symm.trans hd)
      exact ⟨⟨hreg, root, hlocal.trans hroot, hnewserver.2⟩, k, hadj, rfl, hnewserver.1⟩
    · obtain ⟨hpeer, g, hg, hlink, hsname⟩ := hs.links d s ((hstructures d hdc).symm.trans hd)
      obtain ⟨hpeer', hsame⟩ := peer_withServer hsound hname htoken hrreg hpeer
      have hpeer'' : Peer net' s := peer_congr (show net'.servers =
        (hub.net.withServer (L.name k) (L.token k) (some root)).servers from rfl) hparent hpeer'
      refine ⟨hpeer'', g, hg, hlink, ?_⟩
      change (net'.server s).name = L.name g
      rw [hserver s]
      exact hsame.trans hsname
  · intro g hg
    refine ⟨(hs.ends g hg).1, ?_⟩
    by_cases hgc : L.link h g = c
    · rw [hgc]
      exact .inr ⟨_, Function.update_self ..⟩
    · change Function.update hub.structures c _ _ = _ ∨ ∃ s, Function.update hub.structures c _ _ = _
      rw [hstructures _ hgc]
      exact (hs.ends g hg).2
  · intro d r hd hdopen
    have hdc : d ≠ c := by
      rintro rfl
      cases (Function.update_self ..).symm.trans hd
    exact hs.locals d r ((hstructures d hdc).symm.trans hd) hdopen
  · intro r hr hrlocal
    have hsame : net'.isLocal r = hub.net.isLocal r := by
      rw [Network.isLocal, hlocal]
      rfl
    obtain ⟨d, hd, hdopen⟩ := hs.attached r hr (hsame ▸ hrlocal)
    have hdc : d ≠ c := by
      rintro rfl
      cases hstr.symm.trans hd
    exact ⟨d, (hstructures d hdc).trans hd, hdopen⟩
  · intro d nick ident realName hd
    have hdc : d ≠ c := by
      rintro rfl
      cases (Function.update_self ..).symm.trans hd
    exact hs.waiting d nick ident realName ((hstructures d hdc).symm.trans hd)

end Shows

/-- The hub has a new neighbour: it tells the others of it, and the neighbour of all else. -/
structure Meets (hub : Hub) (L : Layout V) (h k : V) (w : View V) (answers : Bool) (hub' : Hub) :
    Prop where
  shows : hub'.Shows L h (w.setKnown k)
  linked : ∃ s, hub'.structures (L.link h k) = .server s
  frame : ∀ g, L.graph.Adj h g → g ≠ k → hub'.structures (L.link h g) = hub.structures (L.link h g)
  told : ∀ g, L.graph.Adj h g → g ≠ k → ∃ ms, hub.Writes (L.link h g) ms hub' ∧
    (¬hub.Hears none (L.link h g) → ms = []) ∧
    (hub.Hears none (L.link h g) → ∃ m, ms = [m] ∧ Update.Announced L m (.server k h))
  brings : ∃ hello ms as, hub.Writes (L.link h k) (hello ++ ms) hub' ∧
    List.Forall₂ (fun m v => Greets L v m) hello (if answers then [h] else []) ∧
    List.Forall₂ (Update.Announced L) ms as ∧ Brings L h k as (w.setKnown k)

namespace Shows

/-- A hub that reads hello has a new neighbour. -/
theorem meets_receive (hcap : KeepsCapitals) (hL : L.Proper) (hs : hub.Shows L h w)
    (hadj : L.graph.Adj h k) (hstr : hub.structures (L.link h k) = .new) (hnew : ¬(w k).known)
    (hfar : ∀ v, (w v).known → v ∈ side L.graph h k) (hgreets : Greets L k m) :
    ∃ hub', hub.receive (L.link h k) m = .ok hub' ∧
      hub.Meets L h k w (!hub.locallyInitiated (L.link h k)) hub' := by
  have hopen := (hs.ends k hadj).1
  have hready := hs.exists_ready hopen
  obtain ⟨root, hroot⟩ := hready.exists_local
  obtain ⟨hpasses, rfl⟩ := hgreets
  have hnumber := parseInt_toString (hL.numbers k).1 (hL.numbers k).2
  obtain ⟨hub', hok, _⟩ := hready.serverUnregisteredInvoke ⟨_, _, _, hstr⟩ hpasses.sendable.toWellFormed
    ⟨L.token k, hnumber⟩ fun _ => hopen
  have hreceive : hub.receive (L.link h k) ⟨none, "SERVER",
      [L.name k, "0", toString (L.token k), L.name k], true⟩ = .ok hub' := by
    have hcmd : getCommand (Message.command ⟨none, "SERVER",
        [L.name k, "0", toString (L.token k), L.name k], true⟩) = some .server := getCommand_server hcap
    rw [receive, hcmd]
    change hub.server (L.link h k) _ = _
    rw [Hub.server, hstr]
    exact hok
  refine ⟨hub', hreceive, ?_⟩
  have hadd : hub.net.serverAdd (some (L.name k)) (L.token k) (some root) =
      .ok (hub.net.next, hub.net.withServer (L.name k) (L.token k) (some root)) := by
    refine Network.serverAdd_eq_ok_iff.mpr ⟨?_, hs.depicts.getServer_eq_none hL hready.sound hnew,
      hs.depicts.getServerByToken_eq_none hL hready.sound hnew, rfl, rfl⟩
    simpa [isEmpty] using (isParameter_iff.mp (hL.words k).1).1
  have hcreate : hub.createServer (some root) ⟨none, "SERVER",
      [L.name k, "0", toString (L.token k), L.name k], true⟩ =
        .ok (.ok (hub.net.next, hub.net.withServer (L.name k) (L.token k) (some root))) :=
    bind_eq_ok_iff.mpr ⟨L.token k, hnumber, congrArg Except.ok hadd⟩
  unfold serverUnregisteredInvoke at hok
  rw [hroot] at hok
  obtain ⟨created, hcreated, hok⟩ := bind_eq_ok_iff.mp hok
  obtain rfl := Except.ok.inj (hcreate.symm.trans hcreated)
  obtain ⟨hub₁, h₁, h₂⟩ := bind_eq_ok_iff.mp hok
  have hs₀ := hs.link hL hadj hstr hnew hroot
  set c := L.link h k with hc
  set hub₀ := Hub.setStructure { hub with net := hub.net.withPeer (L.name k) (L.token k) root c } c
    (.server hub.net.next) with hhub₀
  have hpublish : hub₀.publishServer hub.net.next [c] = .ok hub₁ := h₁
  have hw₁ := wrote_publishServer hpublish
  have hsync : hub₁.sendNetSync c (!hub.locallyInitiated c) = .ok hub' := by
    have hsame : hub₁.locallyInitiated = hub.locallyInitiated := by
      obtain ⟨out, rfl⟩ := hw₁
      rfl
    rw [← hsame]
    exact h₂
  have hw₂ := wrote_sendNetSync hsync
  have hlinked : hub₀.structures c = .server hub.net.next := Function.update_self ..
  have hother : ∀ g, L.graph.Adj h g → g ≠ k →
      L.link h g ≠ c ∧ hub₀.structures (L.link h g) = hub.structures (L.link h g) := by
    intro g hg hne
    have hlink : L.link h g ≠ c := fun heq => hne (hL.links h g k hg hadj heq)
    exact ⟨hlink, Function.update_of_ne hlink ..⟩
  -- the server that is published
  obtain ⟨r, hr, hrname⟩ := hs.depicts.root
  obtain rfl := Option.some.inj (hroot.symm.trans hr)
  obtain ⟨hrreg, _⟩ := Network.getLocalServer_eq_some hroot
  have hlt := hready.sound.servers_lt root hrreg
  have hserver : hub₀.net.server hub.net.next = ⟨L.name k, L.token k, some root, [], [], some c⟩ := by
    change (hub.net.withPeer (L.name k) (L.token k) root c).server hub.net.next = _
    rw [Network.withPeer, Network.setServerConnection_server, if_pos rfl, Network.withServer_server,
      if_pos rfl, if_neg (by simpa using hlt.ne)]
  have hrname₀ : (hub₀.net.server root).name = L.name h := by
    change ((hub.net.withPeer (L.name k) (L.token k) root c).server root).name = _
    rw [Network.withPeer, Network.setServerConnection_server, Network.withServer_server, if_neg hlt.ne]
    exact hrname
  obtain ⟨hpeer, _⟩ := hs₀.links c _ hlinked
  unfold publishServer at hpublish
  simp only [hserver, hrname₀] at hpublish
  obtain ⟨msg, hmsg, hdispatch⟩ := bind_eq_ok_iff.mp hpublish
  have hann := hs₀.announced_server hcap hL hpeer.1 (by rw [hserver]) hmsg
  have hleaf : hub₁.net.children hub.net.next = [] := by
    rw [hw₁.net]
    simp only [Network.children, hserver]
  have hfar' : ∀ v, ((w.setKnown k) v).known → v = k ∨ v ∈ side L.graph h k := fun v hv =>
    (View.known_setKnown.mp hv).imp_right (hfar v)
  obtain ⟨hello, ms, as, hwrites, hhello, hms, hbrings⟩ := (hs₀.wrote hw₁).brings_sendNetSync hcap hL
    hadj (by rw [hw₁.structures]; exact hlinked) hleaf hfar' hsync
  have hquiet : hub₀.Writes c [] hub₁ := by
    have hwrote := (hs₀.exists_ready hopen).writes_dispatchServerMessage hlinked hpeer rfl hopen hdispatch
    rwa [if_pos (by simp)] at hwrote
  refine ⟨(hs₀.wrote hw₁).wrote hw₂, ⟨hub.net.next, ?_⟩, fun g hg hne => ?_, fun g hg hne => ?_,
    hello, ms, as, (hquiet.trans hwrites).congr rfl rfl, hhello, hms, hbrings⟩
  · rw [hw₂.structures, hw₁.structures]
    exact hlinked
  · rw [hw₂.structures, hw₁.structures]
    exact (hother g hg hne).2
  · obtain ⟨hlink, hsame⟩ := hother g hg hne
    obtain ⟨ms, hwrites, hno, hall⟩ := hs₀.writes_dispatch (c := c) hopen spares_self rfl hdispatch hg
      (hs₀.ends g hg).1 (writes_sendNetSync_other hlink.symm hsync) hann
    have hhears : hub₀.Hears (some c) (L.link h g) ↔ hub.Hears none (L.link h g) := by
      simp only [Hears, hsame]
      simp [hlink]
    rw [hhears] at hno hall
    exact ⟨ms, hwrites.congr rfl rfl, hno, hall⟩

/-! ## Opening connections -/

omit [Locale] in
theorem connectionOpened_of_new (hstr : hub.structures c = .new) : hub.connectionOpened c =
    if hub.locallyInitiated c then hub.sendSelf c else .ok hub := by
  have hsame : hub.setStructure c .new = hub := by
    rw [setStructure, ← hstr, Function.update_eq_self]
  rw [connectionOpened, hsame]

omit [DecidableEq V] in
/-- Of the two ends of a link, the one that has opened it says hello. -/
theorem greets_opened (hcap : KeepsCapitals) (hL : L.Proper) (hs : hub.Shows L h w)
    (hadj : L.graph.Adj h k) (hstr : hub.structures (L.link h k) = .new) :
    ∃ hub', hub.connectionOpened (L.link h k) = .ok hub' ∧ hub'.Shows L h w ∧
      hub'.structures = hub.structures ∧
      (∃ hello, hub.Writes (L.link h k) hello hub' ∧
        List.Forall₂ (fun m v => Greets L v m) hello (if L.dials h k then [h] else [])) ∧
      ∀ g, L.graph.Adj h g → g ≠ k → hub.Writes (L.link h g) [] hub' := by
  have hopen := (hs.ends k hadj).1
  have hready := hs.exists_ready hopen
  obtain ⟨root, hroot⟩ := hready.exists_local
  rw [connectionOpened_of_new hstr, hs.dials k hadj]
  split_ifs
  · obtain ⟨hub', hok⟩ := hready.succeeds_sendSelf hready.source
    have hw := wrote_sendSelf hok
    obtain ⟨m, hm, htells⟩ := writes_sendSelf hopen hroot hok
    refine ⟨hub', hok, hs.wrote hw, hw.structures,
      ⟨[m], hm, .cons (hs.greets_root hcap hL hroot htells) .nil⟩, fun g hg hne => ?_⟩
    exact writes_sendSelf_other (fun heq => hne (hL.links h g k hg hadj heq.symm)) hok
  · exact ⟨hub, rfl, hs, rfl, ⟨[], .refl, .nil⟩, fun _ _ _ => .refl⟩

end Shows

end Hub

end MyLifeHome.Irc

