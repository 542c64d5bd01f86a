import MyLifeHome.Irc.Protocol
import MyLifeHome.Library.Dictionary
import Mathlib.Logic.Function.Basic

/-!
# The network that a hub knows

`Network.java` with `Server.java`, `User.java` and `Channel.java`. Objects are numbered, and the
collections hold the numbers; an object that is not in a collection any more keeps its fields.
-/
namespace MyLifeHome.Irc

/-- The number of an object. -/
abbrev Ref := Nat

/-- The number of a connection. -/
abbrev Conn := Nat

structure Server where
  name : String
  token : Int
  parent : Option Ref
  children : List Ref
  users : List Ref
  connection : Option Conn

structure User where
  server : Ref
  nick : String
  ident : String
  host : String
  realName : String
  connection : Option Conn
  channels : Dictionary String Ref

structure Channel where
  name : String
  users : List Ref

structure Network where
  name : String
  channels : Dictionary String Ref
  users : List Ref
  servers : Dictionary String Ref
  serversByToken : Dictionary Int Ref
  server : Ref → Server
  user : Ref → User
  channel : Ref → Channel
  next : Ref

variable [Locale]

namespace Network

variable (net : Network)

/-- `new Network(name)` -/
def new (name : String) : Network :=
  ⟨name, .empty, [], .empty, .empty, fun _ => ⟨"", 0, none, [], [], none⟩,
    fun _ => ⟨0, "", "", "", "", none, .empty⟩, fun _ => ⟨"", []⟩, 0⟩

/-! ## Reading -/

def getChannel (name : String) : Option Ref := net.channels.get (Locale.toLowerCase name)

def getUser (nick : Option String) : Option Ref :=
  match nick with
  | none => none
  | some nick => net.users.find? fun user => equalsIgnoreCase (net.user user).nick nick

def getServer (name : String) : Option Ref := net.servers.get (Locale.toLowerCase name)

def getServerByToken (token : Int) : Option Ref := net.serversByToken.get token

def getServers : List Ref := net.servers.values

def getLocalServer : Option Ref := net.getServers.find? fun server =>
  (net.server server).parent.isNone

def getPeerServers : Except Fault (List Ref) :=
  match net.getLocalServer with
  | some server => .ok (net.server server).children
  | none => .error .nullPointer

/-- The recursion goes down at most `depth` times. -/
def usersBehind : Nat → Ref → Except Fault (List Ref)
  | 0, _ => .error .stackOverflow
  | depth + 1, server =>
    (net.server server).children.foldlM
      (fun list child => do
        let more ← usersBehind depth child
        pure (list ++ more))
      (net.server server).users

def getUsersBehindServer (server : Ref) : Except Fault (List Ref) :=
  net.usersBehind (net.next + 1) server

def hasCommonChannel (user1 user2 : Ref) : Bool :=
  (net.user user1).channels.values.any fun userChan =>
    (net.user user2).channels.values.contains userChan

def getLocalImpactedUsers (user : Ref) : Except Fault (List Ref) :=
  match net.getLocalServer with
  | some server => .ok ((net.server server).users.filter fun item =>
      item ≠ user && net.hasCommonChannel user item)
  | none => .error .nullPointer

def isOn (user channel : Ref) : Bool :=
  ((net.user user).channels.get (Locale.toLowerCase (net.channel channel).name)).isSome

def isLocal (user : Ref) : Bool := some (net.user user).server = net.getLocalServer

/-! ## Writing -/

def modifyServer (r : Ref) (f : Server → Server) : Network :=
  { net with server := Function.update net.server r (f (net.server r)) }

def modifyUser (r : Ref) (f : User → User) : Network :=
  { net with user := Function.update net.user r (f (net.user r)) }

def modifyChannel (r : Ref) (f : Channel → Channel) : Network :=
  { net with channel := Function.update net.channel r (f (net.channel r)) }

def addServer (server : Server) : Network :=
  { net with server := Function.update net.server net.next server, next := net.next + 1 }

def addUser (user : User) : Network :=
  { net with user := Function.update net.user net.next user, next := net.next + 1 }

def addChannel (channel : Channel) : Network :=
  { net with channel := Function.update net.channel net.next channel, next := net.next + 1 }

def addChild (parent : Option Ref) (child : Ref) : Network :=
  match parent with
  | some parent => net.modifyServer parent fun s => { s with children := s.children ++ [child] }
  | none => net

def removeChild (parent : Option Ref) (child : Ref) : Network :=
  match parent with
  | some parent => net.modifyServer parent fun s => { s with children := s.children.erase child }
  | none => net

/-- The server that is added, and the network with it. -/
def serverAdd (name : Option String) (token : Int) (parent : Option Ref) :
    Except Fault (Ref × Network) :=
  if isEmpty name then .error .illegalArgument
  else
    let name := name.getD ""
    if (net.getServer name).isSome then .error .alreadyExists
    else if (net.getServerByToken token).isSome then .error .alreadyExists
    else
      let server := net.next
      let net := (net.addServer ⟨name, token, parent, [], [], none⟩).addChild parent server
      .ok (server, { net with
        servers := net.servers.set (Locale.toLowerCase name) server
        serversByToken := net.serversByToken.set token server })

def userPart (user channel : Ref) : Network :=
  if channel ∈ (net.user user).channels.values then
    (net.modifyUser user fun u =>
      { u with channels := u.channels.erase (Locale.toLowerCase (net.channel channel).name) }).modifyChannel
      channel fun c => { c with users := c.users.erase user }
  else net

def userRemove (user : Ref) : Network :=
  if user ∈ net.users then
    let net := (net.user user).channels.values.foldl (fun net channel => net.userPart user channel) net
    let net := net.modifyServer (net.user user).server fun s => { s with users := s.users.erase user }
    { net with users := net.users.erase user }
  else net

/-- The servers behind the server stay. -/
def serverRemove (server : Ref) : Network :=
  let name := Locale.toLowerCase (net.server server).name
  if name ∈ net.servers.keys then
    let net := (net.server server).users.foldl userRemove net
    let net := net.removeChild (net.server server).parent server
    { net with
      servers := net.servers.erase name
      serversByToken := net.serversByToken.erase (net.server server).token }
  else net

def userAdd (server : Ref) (nick ident host realName : Option String) :
    Except Fault (Ref × Network) :=
  if isEmpty nick ∨ isEmpty ident ∨ isEmpty host ∨ isEmpty realName then .error .illegalArgument
  else if (net.getUser nick).isSome then .error .alreadyExists
  else
    let user := net.next
    let net := net.addUser ⟨server, nick.getD "", ident.getD "", host.getD "", realName.getD "",
      none, .empty⟩
    let net := net.modifyServer server fun s => { s with users := s.users ++ [user] }
    .ok (user, { net with users := net.users ++ [user] })

/-- The channel of the name, made if it is not there. -/
def openChannel (channelName : String) : Ref × Network :=
  match net.getChannel channelName with
  | some channel => (channel, net)
  | none => (net.next, net.addChannel ⟨channelName, []⟩)

def userJoin (user : Option Ref) (channelName : String) : Except Fault Network :=
  match user with
  | none => .error .illegalArgument
  | some user =>
    if channelName = "" then .error .illegalArgument
    else
      let (channel, net) := net.openChannel channelName
      let net := { net with channels := net.channels.set (Locale.toLowerCase channelName) channel }
      if channel ∈ (net.user user).channels.values then .ok net
      else .ok ((net.modifyChannel channel fun c => { c with users := c.users ++ [user] }).modifyUser
        user fun u => { u with
          channels := u.channels.set (Locale.toLowerCase (net.channel channel).name) channel })

def userChangeNick (user : Option Ref) (newNick : String) : Except Fault Network :=
  match user with
  | none => .error .illegalArgument
  | some user =>
    if newNick = "" then .error .illegalArgument
    else if (net.getUser (some newNick)).isSome then .error .alreadyExists
    else .ok (net.modifyUser user fun u => { u with nick := newNick })

end Network

end MyLifeHome.Irc
