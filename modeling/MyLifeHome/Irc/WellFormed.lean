import MyLifeHome.Irc.Network
import Mathlib.Logic.Relation
import Mathlib.Data.List.Nodup

/-!
# Well-formed networks

What the collections of a network say about each other, in four parts that are about different
fields, and the operations of `Network.java` that keep it.
-/
namespace MyLifeHome.Irc

variable [Locale]

theorem equalsIgnoreCase_comm {a b : String} : equalsIgnoreCase a b = equalsIgnoreCase b a := by
  simp only [equalsIgnoreCase]
  exact Bool.beq_comm

namespace Network

variable {net net' : Network} {u v s t c d r : Ref}

def Registered (net : Network) (s : Ref) : Prop := s ∈ net.getServers

def Child (net : Network) (p s : Ref) : Prop := s ∈ (net.server p).children

/-- Nicks are distinct ignoring case. -/
structure NicksDistinct (net : Network) : Prop where
  nodup : net.users.Nodup
  distinct : ∀ u ∈ net.users, ∀ v ∈ net.users,
    equalsIgnoreCase (net.user u).nick (net.user v).nick → u = v

/-- A user is listed once by its own server, which is registered. -/
structure Homes (net : Network) : Prop where
  registered : ∀ u ∈ net.users, net.Registered (net.user u).server
  nodup : ∀ s, net.Registered s → (net.server s).users.Nodup
  listed : ∀ s, net.Registered s →
    ∀ u, u ∈ (net.server s).users ↔ u ∈ net.users ∧ (net.user u).server = s

/-- The channels' lists of users and the users' maps of channels agree. -/
structure Memberships (net : Network) : Prop where
  names : ∀ k c, net.channels.get k = some c → k = Locale.toLowerCase (net.channel c).name
  nodup : ∀ k c, net.channels.get k = some c → (net.channel c).users.Nodup
  joined : ∀ u ∈ net.users, ∀ k c, (net.user u).channels.get k = some c →
    net.channels.get k = some c ∧ u ∈ (net.channel c).users
  present : ∀ k c, net.channels.get k = some c → ∀ u ∈ (net.channel c).users,
    u ∈ net.users ∧ (net.user u).channels.get k = some c

/-- The registered servers are a tree below the local server, and the two indexes agree. -/
structure Tree (net : Network) : Prop where
  names : ∀ k s, net.servers.get k = some s → k = Locale.toLowerCase (net.server s).name
  tokens : ∀ k s, net.serversByToken.get k = some s → k = (net.server s).token
  indexes : ∀ s, s ∈ net.servers.values ↔ s ∈ net.serversByToken.values
  nodup : ∀ p, net.Registered p → (net.server p).children.Nodup
  children : ∀ p, net.Registered p →
    ∀ s, net.Child p s ↔ net.Registered s ∧ (net.server s).parent = some p
  root : ∃ root, net.getLocalServer = some root ∧
    ∀ s, Relation.ReflTransGen net.Child root s ↔ net.Registered s

structure WellFormed (net : Network) : Prop where
  nicks : net.NicksDistinct
  homes : net.Homes
  memberships : net.Memberships
  tree : net.Tree

/-- A well-formed network with the objects that are not in its collections: what is in one has
been made, a user who has left is on no channel, and a server is made after its parent. -/
structure Sound (net : Network) : Prop extends WellFormed net where
  users_lt : ∀ u ∈ net.users, u < net.next
  servers_lt : ∀ s, net.Registered s → s < net.next
  channels_lt : ∀ k c, net.channels.get k = some c → c < net.next
  left : ∀ u, u ∉ net.users → ∀ k, (net.user u).channels.get k = none
  older : ∀ s, net.Registered s → ∀ p, (net.server s).parent = some p → p < s

/-! ## What the parts depend on -/

theorem NicksDistinct.congr (h : net.NicksDistinct) (husers : net'.users = net.users)
    (huser : ∀ u ∈ net.users, (net'.user u).nick = (net.user u).nick) : net'.NicksDistinct := by
  refine ⟨husers ▸ h.nodup, ?_⟩
  intro u hu v hv heq
  rw [husers] at hu hv
  rw [huser u hu, huser v hv] at heq
  exact h.distinct u hu v hv heq

omit [Locale] in
theorem Homes.congr (h : net.Homes) (husers : net'.users = net.users)
    (hservers : ∀ s, net'.Registered s ↔ net.Registered s)
    (huser : ∀ u ∈ net.users, (net'.user u).server = (net.user u).server)
    (hserver : ∀ s, net.Registered s → (net'.server s).users = (net.server s).users) :
    net'.Homes := by
  refine ⟨?_, ?_, ?_⟩
  · intro u hu
    rw [husers] at hu
    rw [hservers, huser u hu]
    exact h.registered u hu
  · intro s hs
    rw [hservers] at hs
    rw [hserver s hs]
    exact h.nodup s hs
  · intro s hs u
    rw [hservers] at hs
    rw [hserver s hs, husers, h.listed s hs u]
    constructor
    · rintro ⟨hu, hhome⟩
      exact ⟨hu, (huser u hu).trans hhome⟩
    · rintro ⟨hu, hhome⟩
      exact ⟨hu, (huser u hu).symm.trans hhome⟩

theorem Memberships.congr (h : net.Memberships) (husers : net'.users = net.users)
    (hchannels : net'.channels = net.channels)
    (huser : ∀ u ∈ net.users, (net'.user u).channels = (net.user u).channels)
    (hchannel : ∀ k c, net.channels.get k = some c → net'.channel c = net.channel c) :
    net'.Memberships := by
  refine ⟨?_, ?_, ?_, ?_⟩
  · intro k c hc
    rw [hchannels] at hc
    rw [hchannel k c hc]
    exact h.names k c hc
  · intro k c hc
    rw [hchannels] at hc
    rw [hchannel k c hc]
    exact h.nodup k c hc
  · intro u hu k c hc
    rw [husers] at hu
    rw [huser u hu] at hc
    have hjoined := h.joined u hu k c hc
    rw [hchannels, hchannel k c hjoined.1]
    exact hjoined
  · intro k c hc u hu
    rw [hchannels] at hc
    rw [hchannel k c hc] at hu
    have hpresent := h.present k c hc u hu
    rw [husers, huser u hpresent.1]
    exact hpresent

omit [Locale] in
theorem getLocalServer_eq_some (h : net.getLocalServer = some r) :
    net.Registered r ∧ (net.server r).parent = none := by
  have hp := List.find?_some h
  exact ⟨List.mem_of_find?_eq_some h, by simpa using hp⟩

omit [Locale] in
theorem getLocalServer_of_unique (hr : net.Registered r) (hp : (net.server r).parent = none)
    (huniq : ∀ s, net.Registered s → (net.server s).parent = none → s = r) :
    net.getLocalServer = some r := by
  cases hl : net.getLocalServer with
  | none =>
    have hno := List.find?_eq_none.mp hl r hr
    simp [hp] at hno
  | some s =>
    obtain ⟨hs, hps⟩ := getLocalServer_eq_some hl
    rw [huniq s hs hps]

namespace Tree

theorem registered_iff (h : net.Tree) :
    net.Registered s ↔ net.servers.get (Locale.toLowerCase (net.server s).name) = some s := by
  constructor
  · intro hs
    obtain ⟨k, hk⟩ := Dictionary.mem_values_iff.mp hs
    rw [← h.names k s hk]
    exact hk
  · intro hk
    exact Dictionary.mem_values_iff.mpr ⟨_, hk⟩

theorem registered_iff_token (h : net.Tree) :
    net.Registered s ↔ net.serversByToken.get (net.server s).token = some s := by
  constructor
  · intro hs
    obtain ⟨k, hk⟩ := Dictionary.mem_values_iff.mp ((h.indexes s).mp hs)
    rw [← h.tokens k s hk]
    exact hk
  · intro hk
    exact (h.indexes s).mpr (Dictionary.mem_values_iff.mpr ⟨_, hk⟩)

theorem parent_registered {p : Ref} (h : net.Tree) (hs : net.Registered s)
    (hp : (net.server s).parent = some p) : net.Registered p := by
  obtain ⟨root, hroot, hreach⟩ := h.root
  have hpath := (hreach s).mpr hs
  cases hpath with
  | refl =>
    have hnone := (getLocalServer_eq_some hroot).2
    simp [hnone] at hp
  | @tail q _ hq hchild =>
    have hreg := (hreach q).mp hq
    have hparent := ((h.children q hreg s).mp hchild).2
    rw [hp] at hparent
    obtain rfl := Option.some.inj hparent
    exact hreg

/-- The only registered server without a parent is the local one. -/
theorem eq_root (h : net.Tree) (hroot : net.getLocalServer = some r) (hs : net.Registered s)
    (hp : (net.server s).parent = none) : s = r := by
  obtain ⟨root, hroot', hreach⟩ := h.root
  obtain rfl : root = r := Option.some.inj (hroot'.symm.trans hroot)
  have hpath := (hreach s).mpr hs
  cases hpath with
  | refl => rfl
  | @tail q _ hq hchild =>
    have hparent := ((h.children q ((hreach q).mp hq) s).mp hchild).2
    simp [hp] at hparent

theorem parent_ne_self (h : net.Tree) (hs : net.Registered s) :
    (net.server s).parent ≠ some s := by
  obtain ⟨root, hroot, hreach⟩ := h.root
  have hpath := (hreach s).mpr hs
  clear hs
  induction hpath with
  | refl =>
    rw [(getLocalServer_eq_some hroot).2]
    simp
  | @tail b a hb hchild ih =>
    have hparent := ((h.children b ((hreach b).mp hb) a).mp hchild).2
    rw [hparent]
    intro heq
    obtain rfl := Option.some.inj heq
    exact ih hparent

theorem registered_of_path (h : net.Tree) (hs : net.Registered s)
    (hpath : Relation.ReflTransGen net.Child s t) : net.Registered t := by
  obtain ⟨root, _, hreach⟩ := h.root
  exact (hreach t).mp (((hreach s).mpr hs).trans hpath)

theorem exists_local (h : net.Tree) : ∃ root, net.getLocalServer = some root :=
  h.root.imp fun _ h => h.1

theorem congr (h : net.Tree) (hservers : net'.servers = net.servers)
    (htokens : net'.serversByToken = net.serversByToken)
    (hname : ∀ s, net.Registered s → (net'.server s).name = (net.server s).name)
    (htoken : ∀ s, net.Registered s → (net'.server s).token = (net.server s).token)
    (hparent : ∀ s, net.Registered s → (net'.server s).parent = (net.server s).parent)
    (hchildren : ∀ s, net.Registered s → (net'.server s).children = (net.server s).children) :
    net'.Tree := by
  have hreg : ∀ s, net'.Registered s ↔ net.Registered s := by
    intro s
    simp only [Registered, getServers, hservers]
  refine ⟨?_, ?_, ?_, ?_, ?_, ?_⟩
  · intro k s hs
    rw [hservers] at hs
    rw [hname s (Dictionary.mem_values_iff.mpr ⟨k, hs⟩)]
    exact h.names k s hs
  · intro k s hs
    rw [htokens] at hs
    rw [htoken s ((h.indexes s).mpr (Dictionary.mem_values_iff.mpr ⟨k, hs⟩))]
    exact h.tokens k s hs
  · intro s
    rw [hservers, htokens]
    exact h.indexes s
  · intro p hp
    rw [hreg] at hp
    rw [hchildren p hp]
    exact h.nodup p hp
  · intro p hp s
    rw [hreg] at hp
    rw [Child, hchildren p hp, hreg]
    refine (h.children p hp s).trans ?_
    constructor
    · rintro ⟨hs, hps⟩
      exact ⟨hs, (hparent s hs).trans hps⟩
    · rintro ⟨hs, hps⟩
      exact ⟨hs, (hparent s hs).symm.trans hps⟩
  · obtain ⟨root, hroot, hreach⟩ := h.root
    refine ⟨root, ?_, ?_⟩
    · obtain ⟨hr, hp⟩ := getLocalServer_eq_some hroot
      refine getLocalServer_of_unique ((hreg root).mpr hr) ((hparent root hr).trans hp) ?_
      intro s hs hps
      rw [hreg] at hs
      exact h.eq_root hroot hs ((hparent s hs).symm.trans hps)
    · intro s
      rw [hreg, ← hreach]
      -- along a path every server is registered, so it has the same children in both
      have hsub : ∀ {a}, Relation.ReflTransGen net'.Child root a →
          Relation.ReflTransGen net.Child root a := by
        intro a ha
        induction ha with
        | refl => exact .refl
        | @tail b a _ hchild ih =>
          rw [Child, hchildren b ((hreach b).mp ih)] at hchild
          exact ih.tail hchild
      refine ⟨hsub, ?_⟩
      intro hs
      induction hs with
      | refl => exact .refl
      | @tail b a hb hchild ih =>
        refine ih.tail ?_
        rw [Child, hchildren b ((hreach b).mp hb)]
        exact hchild

end Tree

end Network

end MyLifeHome.Irc
