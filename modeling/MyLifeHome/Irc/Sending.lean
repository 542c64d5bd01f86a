import MyLifeHome.Irc.Commands
import MyLifeHome.Library.Checked

/-!
# What only writes to connections

Replies, dispatching and synchronisation do nothing to the hub but to write messages, and close
nothing. What a command does to the network stands in a few places.
-/
namespace MyLifeHome.Irc

open Checked

variable [Locale]

namespace Hub

variable {hub hub' hub'' : Hub} {c src dest : Conn} {msg : Message} {user : Ref}

/-- The hub has written some messages. -/
def Wrote (hub hub' : Hub) : Prop := ∃ out, hub' = { hub with sent := hub.sent ++ out }

namespace Wrote

section

omit [Locale]

theorem refl : Wrote hub hub := ⟨[], by rw [List.append_nil]⟩

theorem trans (h : Wrote hub hub') (g : Wrote hub' hub'') : Wrote hub hub'' := by
  obtain ⟨out, rfl⟩ := h
  obtain ⟨more, rfl⟩ := g
  exact ⟨out ++ more, by rw [List.append_assoc]⟩

theorem net (h : Wrote hub hub') : hub'.net = hub.net := by
  obtain ⟨out, rfl⟩ := h
  rfl

theorem structures (h : Wrote hub hub') : hub'.structures = hub.structures := by
  obtain ⟨out, rfl⟩ := h
  rfl

theorem closed (h : Wrote hub hub') : hub'.closed = hub.closed := by
  obtain ⟨out, rfl⟩ := h
  rfl

end

end Wrote

section

omit [Locale]

/-- A loop that writes in each round. -/
theorem wrote_foldlM {α : Type} {f : Hub → α → Except Fault Hub} {as : List α}
    (step : ∀ {hub a hub'}, f hub a = .ok hub' → Wrote hub hub') (h : as.foldlM f hub = .ok hub') :
    Wrote hub hub' :=
  foldlM_invariant (I := Wrote hub) (fun _ hw hf => hw.trans (step hf)) h .refl

theorem wrote_send (h : hub.send c msg = .ok hub') : Wrote hub hub' := by
  unfold send at h
  split at h
  · split at h
    · obtain rfl := Except.ok.inj h
      exact .refl
    · simp at h
  · exact ⟨[(c, msg)], (Except.ok.inj h).symm⟩

theorem wrote_sendTo {con : Option Conn} (h : hub.sendTo con msg = .ok hub') : Wrote hub hub' := by
  cases con with
  | none => simp [sendTo] at h
  | some c => exact wrote_send h

theorem wrote_sendAll {cons : List (Option Conn)} {excluded : List Conn}
    (h : hub.sendAll cons msg excluded = .ok hub') : Wrote hub hub' := by
  refine wrote_foldlM ?_ h
  intro hub con hub' h
  split_ifs at h
  · obtain rfl := Except.ok.inj h
    exact .refl
  · exact wrote_sendTo h

theorem wrote_replyError {num : Numerics} (h : hub.replyError dest num = .ok hub') :
    Wrote hub hub' := by
  obtain ⟨m, _, h⟩ := bind_eq_ok_iff.mp h
  split at h
  · obtain ⟨_, _, h⟩ := bind_eq_ok_iff.mp h
    obtain rfl := Except.ok.inj h
    exact .refl
  · exact wrote_send h

theorem wrote_reply {con : Option Conn} {num : Numerics} {parameters : List String}
    {last : Option String} (h : hub.reply con num user parameters last = .ok hub') :
    Wrote hub hub' := by
  obtain ⟨m, _, h⟩ := bind_eq_ok_iff.mp h
  obtain ⟨m', _, h⟩ := bind_eq_ok_iff.mp h
  exact wrote_sendTo h

theorem wrote_dispatchServerMessage {excluded : List Conn}
    (h : hub.dispatchServerMessage msg excluded = .ok hub') : Wrote hub hub' := by
  obtain ⟨cons, _, h⟩ := bind_eq_ok_iff.mp h
  exact wrote_sendAll h

theorem wrote_dispatchUserMessage {excluded : List Conn}
    (h : hub.dispatchUserMessage user msg excluded = .ok hub') : Wrote hub hub' := by
  obtain ⟨hub₁, h₁, h⟩ := bind_eq_ok_iff.mp h
  obtain ⟨impacted, _, h⟩ := bind_eq_ok_iff.mp h
  exact (wrote_dispatchServerMessage h₁).trans (wrote_sendAll h)

theorem wrote_dispatchUserListMessage {list : List Ref} {excluded : List Conn}
    (h : hub.dispatchUserListMessage list msg excluded = .ok hub') : Wrote hub hub' := by
  obtain ⟨cons, _, h⟩ := bind_eq_ok_iff.mp h
  exact wrote_sendAll h

theorem wrote_dispatchNewUser {hopcount : Int} {excluded : List Conn}
    (h : hub.dispatchNewUser user hopcount excluded = .ok hub') : Wrote hub hub' := by
  obtain ⟨m, _, h⟩ := bind_eq_ok_iff.mp h
  exact wrote_dispatchServerMessage h

theorem wrote_userWelcome (h : hub.userWelcome user = .ok hub') : Wrote hub hub' := by
  obtain ⟨hub₁, h₁, h⟩ := bind_eq_ok_iff.mp h
  obtain ⟨hub₂, h₂, h⟩ := bind_eq_ok_iff.mp h
  obtain ⟨hub₃, h₃, h⟩ := bind_eq_ok_iff.mp h
  obtain ⟨hub₄, h₄, h⟩ := bind_eq_ok_iff.mp h
  exact (wrote_reply h₁).trans <| (wrote_reply h₂).trans <| (wrote_reply h₃).trans <|
    (wrote_reply h₄).trans (wrote_reply h)

theorem wrote_sendNames {channel : Ref} (h : hub.sendNames user channel = .ok hub') :
    Wrote hub hub' := by
  obtain ⟨hub₁, h₁, h⟩ := bind_eq_ok_iff.mp h
  exact (wrote_reply h₁).trans (wrote_reply h)

theorem wrote_sendServer {excluded : Option Ref} {depth : Nat} {s : Ref} {current children : Bool}
    (h : sendServer dest excluded depth hub s current children = .ok hub') : Wrote hub hub' := by
  induction depth generalizing hub s hub' current children with
  | zero => simp [sendServer] at h
  | succ depth ih =>
    by_cases hs : some s = excluded
    · rw [sendServer, if_pos hs] at h
      obtain rfl := Except.ok.inj h
      exact .refl
    rw [sendServer, if_neg hs] at h
    obtain ⟨hub₁, h₁, h⟩ := bind_eq_ok_iff.mp h
    have hw : Wrote hub hub₁ := by
      split_ifs at h₁
      · obtain ⟨m, _, h₁⟩ := bind_eq_ok_iff.mp h₁
        exact wrote_send h₁
      · obtain rfl := Except.ok.inj h₁
        exact .refl
    refine hw.trans ?_
    split_ifs at h
    · exact wrote_foldlM ih h
    · obtain rfl := Except.ok.inj h
      exact .refl

theorem wrote_sendSelf (h : hub.sendSelf dest = .ok hub') : Wrote hub hub' := by
  unfold sendSelf at h
  split at h
  · exact wrote_sendServer h
  · simp at h

theorem wrote_sendJoins (h : hub.sendJoins dest user = .ok hub') : Wrote hub hub' := by
  unfold sendJoins at h
  dsimp only at h
  split_ifs at h
  · obtain rfl := Except.ok.inj h
    exact .refl
  · obtain ⟨m, _, h⟩ := bind_eq_ok_iff.mp h
    exact wrote_send h

theorem wrote_sendNetSync {publishSelf : Bool} (h : hub.sendNetSync dest publishSelf = .ok hub') :
    Wrote hub hub' := by
  unfold sendNetSync at h
  dsimp only at h
  split at h
  · cases h
  · obtain ⟨hub₁, h₁, h⟩ := bind_eq_ok_iff.mp h
    obtain ⟨users, _, h⟩ := bind_eq_ok_iff.mp h
    obtain ⟨hub₂, h₂, h⟩ := bind_eq_ok_iff.mp h
    refine (wrote_sendServer h₁).trans (.trans ?_ (wrote_foldlM wrote_sendJoins h))
    refine wrote_foldlM ?_ h₂
    intro hub user hub' h
    obtain ⟨m, _, h⟩ := bind_eq_ok_iff.mp h
    exact wrote_send h

theorem wrote_sendNetSplit {lost : Ref} {reason : Option String} {excluded : List Conn}
    (h : hub.sendNetSplit lost reason excluded = .ok hub') : Wrote hub hub' := by
  unfold sendNetSplit at h
  obtain ⟨m₁, _, h⟩ := bind_eq_ok_iff.mp h
  obtain ⟨m₂, _, h⟩ := bind_eq_ok_iff.mp h
  obtain ⟨hub₁, h₁, h⟩ := bind_eq_ok_iff.mp h
  obtain ⟨users, _, h⟩ := bind_eq_ok_iff.mp h
  refine (wrote_dispatchServerMessage h₁).trans ?_
  split at h
  · cases h
  · refine wrote_foldlM ?_ h
    intro hub user hub' h
    obtain ⟨m, _, h⟩ := bind_eq_ok_iff.mp h
    exact wrote_sendAll h

end

theorem wrote_routeMessage (h : hub.routeMessage src msg = .ok hub') : Wrote hub hub' := by
  unfold routeMessage at h
  split at h
  · obtain rfl := Except.ok.inj h
    exact .refl
  · obtain ⟨targets, _, h⟩ := bind_eq_ok_iff.mp h
    split at h
    · obtain rfl := Except.ok.inj h
      exact .refl
    · obtain ⟨fw, _, h⟩ := bind_eq_ok_iff.mp h
      exact wrote_dispatchUserListMessage h
  · obtain rfl := Except.ok.inj h
    exact .refl

section

omit [Locale]

theorem wrote_sendMap {depth : Nat} {text : String} {s : Ref}
    (h : sendMap user depth hub text s = .ok hub') : Wrote hub hub' := by
  induction depth generalizing hub text s hub' with
  | zero => simp [sendMap] at h
  | succ depth ih =>
    unfold sendMap at h
    obtain ⟨hub₁, h₁, h⟩ := bind_eq_ok_iff.mp h
    obtain ⟨hub₂, h₂, h⟩ := bind_eq_ok_iff.mp h
    exact (wrote_reply h₁).trans ((wrote_foldlM wrote_reply h₂).trans (wrote_foldlM ih h))

theorem wrote_map (h : hub.map src = .ok hub') : Wrote hub hub' := by
  unfold map at h
  split at h
  · exact wrote_replyError h
  · obtain rfl := Except.ok.inj h
    exact .refl
  · split at h
    · simp at h
    · obtain ⟨hub₁, h₁, h⟩ := bind_eq_ok_iff.mp h
      exact (wrote_sendMap h₁).trans (wrote_reply h)

theorem wrote_publishServer {s : Ref} {excluded : List Conn}
    (h : hub.publishServer s excluded = .ok hub') : Wrote hub hub' := by
  unfold publishServer at h
  split at h
  · simp at h
  · obtain ⟨m, _, h⟩ := bind_eq_ok_iff.mp h
    exact wrote_dispatchServerMessage h

theorem wrote_welcome {channel : Ref} (h : hub.welcome src user channel = .ok hub') :
    Wrote hub hub' := by
  unfold welcome at h
  split_ifs at h
  · obtain ⟨m, _, h⟩ := bind_eq_ok_iff.mp h
    obtain ⟨hub₁, h₁, h⟩ := bind_eq_ok_iff.mp h
    obtain ⟨hub₂, h₂, h⟩ := bind_eq_ok_iff.mp h
    exact (wrote_send h₁).trans ((wrote_reply h₂).trans (wrote_sendNames h))
  · obtain rfl := Except.ok.inj h
    exact .refl

theorem wrote_dispatchNickChange {oldNick newNick : String} {excluded : List Conn}
    (h : hub.dispatchNickChange user oldNick newNick excluded = .ok hub') : Wrote hub hub' := by
  obtain ⟨m, _, h⟩ := bind_eq_ok_iff.mp h
  obtain ⟨hub₁, h₁, h⟩ := bind_eq_ok_iff.mp h
  refine (wrote_dispatchUserMessage h₁).trans ?_
  split_ifs at h
  · exact wrote_sendTo h
  · obtain rfl := Except.ok.inj h
    exact .refl

theorem wrote_dispatchNickCollision {user : Option Ref} {nick : Option String}
    (h : hub.dispatchNickCollision user nick = .ok hub') : Wrote hub hub' := by
  unfold dispatchNickCollision at h
  split at h
  · obtain rfl := Except.ok.inj h
    exact .refl
  · obtain ⟨m₁, _, h⟩ := bind_eq_ok_iff.mp h
    obtain ⟨m₂, _, h⟩ := bind_eq_ok_iff.mp h
    split at h
    · exact wrote_dispatchUserMessage h
    · exact wrote_dispatchServerMessage h

theorem wrote_ping (h : hub.ping src msg = .ok hub') : Wrote hub hub' := by
  obtain ⟨m, _, h⟩ := bind_eq_ok_iff.mp h
  exact wrote_send h

end

end Hub

end MyLifeHome.Irc

