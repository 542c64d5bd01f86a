import MyLifeHome.Irc.Network

/-!
# The hub and what its commands share

The part of `IrcServer.java` and `IrcConnection.java` that commands see, and `CommandUtils.java`.
Writing to a socket succeeds, unless the hub has closed it.
-/
namespace MyLifeHome.Irc

structure Numerics where
  digits : String
  name : String

namespace Numerics

def RPL_WELCOME : Numerics := ⟨"001", "RPL_WELCOME"⟩
def RPL_YOURHOST : Numerics := ⟨"002", "RPL_YOURHOST"⟩
def RPL_CREATED : Numerics := ⟨"003", "RPL_CREATED"⟩
def RPL_MYINFO : Numerics := ⟨"004", "RPL_MYINFO"⟩
def RPL_ISUPPORT : Numerics := ⟨"005", "RPL_ISUPPORT"⟩
def RPL_MAP : Numerics := ⟨"006", "RPL_MAP"⟩
def RPL_MAPEND : Numerics := ⟨"007", "RPL_MAPEND"⟩
def RPL_NOTOPIC : Numerics := ⟨"331", "RPL_NOTOPIC"⟩
def RPL_NAMREPLY : Numerics := ⟨"353", "RPL_NAMREPLY"⟩
def RPL_ENDOFNAMES : Numerics := ⟨"366", "RPL_ENDOFNAMES"⟩
def ERR_NOSUCHSERVER : Numerics := ⟨"402", "ERR_NOSUCHSERVER"⟩
def ERR_NOSUCHCHANNEL : Numerics := ⟨"403", "ERR_NOSUCHCHANNEL"⟩
def ERR_UNKNOWNCOMMAND : Numerics := ⟨"421", "ERR_UNKNOWNCOMMAND"⟩
def ERR_ERRONEUSNICKNAME : Numerics := ⟨"432", "ERR_ERRONEUSNICKNAME"⟩
def ERR_NICKNAMEINUSE : Numerics := ⟨"433", "ERR_NICKNAMEINUSE"⟩
def ERR_NOTONCHANNEL : Numerics := ⟨"442", "ERR_NOTONCHANNEL"⟩
def ERR_NOSUCHNICK : Numerics := ⟨"401", "ERR_NOSUCHNICK"⟩
def ERR_NOTREGISTERED : Numerics := ⟨"451", "ERR_NOTREGISTERED"⟩
def ERR_NEEDMOREPARAMS : Numerics := ⟨"461", "ERR_NEEDMOREPARAMS"⟩
def ERR_ALREADYREGISTRED : Numerics := ⟨"462", "ERR_ALREADYREGISTRED"⟩
def ERR_NOPRIVILEGES : Numerics := ⟨"481", "ERR_NOPRIVILEGES"⟩

end Numerics

/-- `Bundle.properties` -/
def bundle : List (String × String) :=
  [("RPL_MAPEND", "End of /MAP"), ("RPL_NOTOPIC", "No topic is set"),
    ("RPL_ENDOFNAMES", "End of /NAMES list"), ("ERR_NOSUCHNICK", "No such nick"),
    ("ERR_NOSUCHCHANNEL", "No such channel"), ("ERR_NOSUCHSERVER", "No such server"),
    ("ERR_NOTONCHANNEL", "You're not on that channel"), ("ERR_UNKNOWNCOMMAND", "Unknown command"),
    ("ERR_NEEDMOREPARAMS", "Not enough parameters"),
    ("ERR_NOPRIVILEGES", "Permission Denied - You're not an IRC operator"),
    ("ERR_NOTREGISTERED", "You have not registered"),
    ("ERR_ERRONEUSNICKNAME", "Erroneous nickname"),
    ("ERR_NICKNAMEINUSE", "Nickname is already in use"),
    ("ERR_ALREADYREGISTRED", "Unauthorized command (already registered)")]

def getResourceString (key : String) : Option String := bundle.lookup key

/-- `Connectable`: who is at the other end of a connection. -/
inductive Connectable where
  | unregistered (nick ident realName : Option String)
  | server (r : Ref)
  | user (r : Ref)
  deriving DecidableEq

/-- `new Unregistered()` -/
def Connectable.new : Connectable := .unregistered none none none

/-- `IrcServer` with its connections, and what has been written to them so far. -/
structure Hub where
  name : String
  version : String
  buildTimestamp : String
  startTime : String
  net : Network
  structures : Conn → Connectable
  locallyInitiated : Conn → Bool
  remoteHost : Conn → Option String
  closed : Conn → Bool
  sent : List (Conn × Message)

variable [Locale]

namespace Hub

/-! ## Connections -/

def setStructure (hub : Hub) (c : Conn) (structure' : Connectable) : Hub :=
  { hub with structures := Function.update hub.structures c structure' }

/-- An error of the socket closes the connection again, which does nothing when nobody is
registered on it. Where somebody is, the error stands for that second `close`. An open socket has
no errors. -/
def send (hub : Hub) (c : Conn) (msg : Message) : Except Fault Hub :=
  if hub.closed c then
    match hub.structures c with
    | .unregistered _ _ _ => .ok hub
    | _ => .error .closedChannel
  else .ok { hub with sent := hub.sent ++ [(c, msg)] }

/-- `con.send(msg)` for a connection that may be null. -/
def sendTo (hub : Hub) (con : Option Conn) (msg : Message) : Except Fault Hub :=
  match con with
  | some c => hub.send c msg
  | none => .error .nullPointer

/-- The same to several connections, save those that are excluded. -/
def sendAll (hub : Hub) (cons : List (Option Conn)) (msg : Message) (excluded : List Conn) :
    Except Fault Hub :=
  cons.foldlM (fun hub con => if con ∈ excluded.map some then pure hub else hub.sendTo con msg) hub

/-! ## Replies -/

/-- The reply has the nick of the user in front, and ends with the text of the bundle. -/
def createMessage (hub : Hub) (num : Numerics) (user : Option Ref) (parameters : List String) :
    Except Fault Message :=
  match hub.net.getLocalServer with
  | none => .error .nullPointer
  | some server => do
    let nick := (user.map fun user => (hub.net.user user).nick).toList
    let msg := Message.make (some (hub.net.server server).name) num.digits
    let msg ← (nick ++ parameters).foldlM Message.appendParameter msg
    msg.appendText (getResourceString num.name)

def userOf (hub : Hub) (c : Conn) : Option Ref :=
  match hub.structures c with
  | .user r => some r
  | _ => none

/-- No error goes to a server: it is only logged. -/
def replyError (hub : Hub) (dest : Conn) (num : Numerics) : Except Fault Hub := do
  let msg ← hub.createMessage num (hub.userOf dest) []
  match hub.structures dest with
  | .server _ => do
    msg.toStringOk
    pure hub
  | _ => hub.send dest msg

def reply (hub : Hub) (dest : Option Conn) (num : Numerics) (user : Ref) (parameters : List String)
    (last : Option String) : Except Fault Hub := do
  let msg ← hub.createMessage num (some user) parameters
  let msg ← msg.appendText last
  hub.sendTo dest msg

/-! ## Dispatching -/

def peerConnections (hub : Hub) : Except Fault (List (Option Conn)) := do
  let peers ← hub.net.getPeerServers
  pure (peers.map fun peer => (hub.net.server peer).connection)

def dispatchServerMessage (hub : Hub) (msg : Message) (excluded : List Conn) : Except Fault Hub := do
  hub.sendAll (← hub.peerConnections) msg excluded

def dispatchUserMessage (hub : Hub) (user : Ref) (msg : Message) (excluded : List Conn) :
    Except Fault Hub := do
  let hub ← hub.dispatchServerMessage msg excluded
  let impacted ← hub.net.getLocalImpactedUsers user
  hub.sendAll (impacted.map fun u => (hub.net.user u).connection) msg excluded

/-- The climb towards the hub ends at a peer. -/
def climbToPeer (net : Network) (peers : List Ref) : Nat → Option Ref → Except Fault Ref
  | _, none => .error .nullPointer
  | 0, some _ => .error .stackOverflow
  | depth + 1, some server =>
    if server ∈ peers then .ok server else climbToPeer net peers depth (net.server server).parent

def getUserConnection (net : Network) (user : Ref) : Except Fault (Option Conn) :=
  if net.isLocal user then .ok (net.user user).connection
  else do
    let peers ← net.getPeerServers
    let peer ← climbToPeer net peers (net.next + 1) (some (net.user user).server)
    pure (net.server peer).connection

/-- One copy for each connection. -/
def dispatchUserListMessage (hub : Hub) (list : List Ref) (msg : Message) (excluded : List Conn) :
    Except Fault Hub := do
  let cons ← list.mapM (getUserConnection hub.net)
  hub.sendAll cons.dedup msg excluded

def createNewNickMessage (hub : Hub) (user : Ref) (hopcount : Int) : Except Fault Message := do
  let u := hub.net.user user
  let msg ← (Message.make none "NICK").appendParameter u.nick
  let msg ← msg.appendParameter (toString hopcount)
  let msg ← msg.appendParameter u.ident
  let msg ← msg.appendParameter u.host
  let msg ← msg.appendParameter (toString (hub.net.server u.server).token)
  let msg ← msg.appendParameter "+"
  msg.appendLastParameter (some u.realName)

def dispatchNewUser (hub : Hub) (user : Ref) (hopcount : Int) (excluded : List Conn) :
    Except Fault Hub := do
  let msg ← hub.createNewNickMessage user hopcount
  hub.dispatchServerMessage msg excluded

/-! ## Joins and registrations -/

def userWelcome (hub : Hub) (user : Ref) : Except Fault Hub := do
  let dest := (hub.net.user user).connection
  let u := hub.net.user user
  let fullName := u.nick ++ "!" ++ u.ident ++ "@" ++ u.host
  let localName := (hub.net.getLocalServer.map fun s => (hub.net.server s).name).getD ""
  let hub ← hub.reply dest .RPL_WELCOME user []
    (some ("Welcome to the " ++ hub.net.name ++ " " ++ fullName))
  let hub ← hub.reply dest .RPL_YOURHOST user []
    (some ("Your host is " ++ localName ++ ", running version " ++ hub.version ++ "_" ++
      hub.buildTimestamp))
  let hub ← hub.reply dest .RPL_CREATED user [] (some ("This server was created " ++ hub.startTime))
  let hub ← hub.reply dest .RPL_MYINFO user []
    (some (localName ++ " " ++ hub.name ++ "_v" ++ hub.version ++ "_" ++ hub.buildTimestamp ++ " - -"))
  hub.reply dest .RPL_ISUPPORT user
    ["CHANTYPES=#", "CASEMAPPING=ascii", "NETWORK=" ++ hub.net.name]
    (some "are supported by this server")

def sendNames (hub : Hub) (user channel : Ref) : Except Fault Hub := do
  let dest := (hub.net.user user).connection
  let name := (hub.net.channel channel).name
  let nicks := (hub.net.channel channel).users.map fun item => (hub.net.user item).nick
  let hub ← hub.reply dest .RPL_NAMREPLY user ["=", name] (some (" ".intercalate nicks))
  hub.reply dest .RPL_ENDOFNAMES user [name] none

/-! ## Messages of users -/

/-- Who the message is for; none when it is dropped. -/
def messageTargets (net : Network) (sender : Option String) (target : String) :
    Except Fault (Option (List Ref)) := do
  if ← isChannelIdentifier target then
    match net.getChannel target with
    | none => pure none
    | some channelTarget =>
      match net.getUser sender with
      | none => throw .nullPointer
      | some source =>
        if net.isOn source channelTarget then
          pure (some ((net.channel channelTarget).users.filter (· ≠ source)))
        else pure none
  else if isNickName target then
    pure ((net.getUser (some target)).map fun userTarget => [userTarget])
  else pure none

/-- The message as it goes on. -/
def forwardedMessage (sender : Option String) (command target text : String) :
    Except Fault Message := do
  let fw ← Message.create sender command
  let fw ← fw.appendParameter target
  fw.appendLastParameter (some text)

def senderOf (hub : Hub) (src : Conn) (message : Message) : Option String :=
  match hub.structures src with
  | .user u => some (hub.net.user u).nick
  | _ => message.sender

/-- `routeMessage`, with `sendReplies` false as both callers have it. -/
def routeMessage (hub : Hub) (src : Conn) (message : Message) : Except Fault Hub :=
  match hub.structures src, message.params with
  | .unregistered _ _ _, _ => .ok hub
  | _, target :: text :: _ => do
    match ← messageTargets hub.net (hub.senderOf src message) target with
    | none => pure hub
    | some targets => do
      let fw ← forwardedMessage (hub.senderOf src message) message.command target text
      hub.dispatchUserListMessage targets fw [src]
  | _, _ => .ok hub

/-! ## Links -/

/-- `SERVER`, as the server is published to others. -/
def serverMessage (hub : Hub) (sender : Option String) (server : Ref) : Except Fault Message := do
  let s := hub.net.server server
  let msg ← (Message.make sender "SERVER").appendParameter s.name
  let msg ← msg.appendParameter "0"
  let msg ← msg.appendParameter (toString s.token)
  msg.appendLastParameter (some s.name)

def sendServer (dest : Conn) (excludedServer : Option Ref) :
    Nat → Hub → Ref → (publishCurrent publishChildren : Bool) → Except Fault Hub
  | 0, _, _, _, _ => .error .stackOverflow
  | depth + 1, hub, currentServer, publishCurrent, publishChildren =>
    if some currentServer = excludedServer then .ok hub
    else do
      let sender := (hub.net.server currentServer).parent.map fun p => (hub.net.server p).name
      let hub ← (if publishCurrent then hub.serverMessage sender currentServer >>= hub.send dest
        else pure hub)
      if publishChildren then
        (hub.net.server currentServer).children.foldlM
          (fun hub child => sendServer dest excludedServer depth hub child true true) hub
      else pure hub

def sendSelf (hub : Hub) (dest : Conn) : Except Fault Hub :=
  match hub.net.getLocalServer with
  | some self => sendServer dest none (hub.net.next + 1) hub self true false
  | none => .error .nullPointer

/-- `JOIN` for the channels that the user is on. -/
def sendJoins (hub : Hub) (dest : Conn) (user : Ref) : Except Fault Hub := do
  let names := (hub.net.user user).channels.values.map fun chan => (hub.net.channel chan).name
  let buffer := ",".intercalate names
  if buffer = "" then pure hub
  else do
    let msg ← (Message.make (some (hub.net.user user).nick) "JOIN").appendLastParameter (some buffer)
    hub.send dest msg

def sendNetSync (hub : Hub) (dest : Conn) (publishSelf : Bool) : Except Fault Hub := do
  let net := hub.net
  let targetServer := match hub.structures dest with
    | .server s => some s
    | _ => none
  match net.getLocalServer with
  | none => throw .nullPointer
  | some self => do
    let hub ← sendServer dest targetServer (net.next + 1) hub self publishSelf true
    let peers := (net.server self).children
    let users ← (peers.filter fun peer => some peer ≠ targetServer).foldlM
      (fun users peer => do
        let more ← net.getUsersBehindServer peer
        pure (users ++ more))
      (net.server self).users
    let hub ← users.foldlM (fun hub user => do hub.send dest (← hub.createNewNickMessage user 1)) hub
    users.foldlM (fun hub user => hub.sendJoins dest user) hub

/-- The servers are told of the loss, and the local users of the users behind it. -/
def sendNetSplit (hub : Hub) (lostServer : Ref) (reason : Option String) (excluded : List Conn) :
    Except Fault Hub := do
  let net := hub.net
  let squitMessage ← (Message.make none "SQUIT").appendParameter (net.server lostServer).name
  let squitMessage ← squitMessage.appendLastParameter reason
  let hub ← hub.dispatchServerMessage squitMessage excluded
  let splittedUsers ← net.getUsersBehindServer lostServer
  match net.getLocalServer with
  | none => throw .nullPointer
  | some self =>
    splittedUsers.foldlM
      (fun hub splittedUser => do
        let quitMessage ← (Message.make (some (net.user splittedUser).nick) "QUIT").appendLastParameter
          (some "*.net *.split")
        let seen := (net.server self).users.filter fun u => net.hasCommonChannel u splittedUser
        hub.sendAll (seen.map fun u => (net.user u).connection) quitMessage [])
      hub

/-! ## The end of a connection -/

def userLeft (hub : Hub) (user : Ref) : Except Fault Hub := do
  let quitMessage ← (Message.make (some (hub.net.user user).nick) "QUIT").appendLastParameter
    (some "Connection error")
  let hub ← hub.dispatchUserMessage user quitMessage []
  pure { hub with net := hub.net.userRemove user }

def serverLeft (hub : Hub) (server : Ref) : Except Fault Hub := do
  let hub ← hub.sendNetSplit server (some "Connection error")
    (hub.net.server server).connection.toList
  pure { hub with net := hub.net.serverRemove server }

/-- `ConnectionClosedCommand` -/
def connectionClosed (hub : Hub) (src : Conn) : Except Fault Hub :=
  match hub.structures src with
  | .unregistered _ _ _ => .ok hub
  | .server s => hub.serverLeft s
  | .user u => hub.userLeft u

def close (hub : Hub) (c : Conn) : Except Fault Hub :=
  connectionClosed { hub with closed := Function.update hub.closed c true } c

/-- Nobody is registered on the connection when it is closed from here. -/
def userError (hub : Hub) (dest : Conn) (reason : Option String) : Except Fault Hub := do
  match hub.structures dest with
  | .server _ => throw .illegalArgument
  | former =>
    let errorMessage ← (Message.make none "ERROR").appendLastParameter reason
    let hub ← hub.send dest errorMessage
    let hub ← (hub.setStructure dest .new).close dest
    match former with
    | .user user => do
      let quitMessage ← (Message.make (some (hub.net.user user).nick) "QUIT").appendLastParameter reason
      let hub ← hub.dispatchUserMessage user quitMessage []
      pure { hub with net := hub.net.userRemove user }
    | _ => pure hub

end Hub

end MyLifeHome.Irc
