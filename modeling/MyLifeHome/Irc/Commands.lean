import MyLifeHome.Irc.CommandUtils
import MyLifeHome.Library.Utf8

/-!
# The commands

One section for each class of the package `commands`, `CommandFactory.java`, and what a
connection does with a line.
-/
namespace MyLifeHome.Irc

variable [Locale]

namespace Hub

/-- `CommandUtils.checkRegistered` -/
def checkRegistered (hub : Hub) (src : Conn) : Bool :=
  match hub.structures src with
  | .unregistered _ _ _ => false
  | _ => true

def checkServer (hub : Hub) (src : Conn) : Bool :=
  match hub.structures src with
  | .server _ => true
  | _ => false

/-- The user that a command is about: the one of the connection, or the sender behind a link. -/
def source (hub : Hub) (src : Conn) (msg : Message) : Option Ref :=
  match hub.structures src with
  | .user u => some u
  | _ => hub.net.getUser msg.sender

/-! ## SQUIT -/

def squit (hub : Hub) (src : Conn) (msg : Message) : Except Fault Hub :=
  match hub.structures src with
  | .unregistered _ _ _ => hub.replyError src .ERR_NOTREGISTERED
  | .user _ => hub.replyError src .ERR_NOPRIVILEGES
  | .server _ =>
    match msg.getParameter 0 with
    | none => .error .nullPointer
    | some lostServerName =>
      match hub.net.getServer lostServerName with
      | none => .error .nullPointer
      | some lostServer => do
        let hub ← hub.sendNetSplit lostServer (msg.getParameter 1) [src]
        pure { hub with net := hub.net.serverRemove lostServer }

/-! ## KILL -/

/-- A user of this hub is disconnected. -/
def disconnectLocal (hub : Hub) (user : Ref) (reason : Option String) : Except Fault Hub :=
  if hub.net.isLocal user then
    match (hub.net.user user).connection with
    | none => .error .nullPointer
    | some con => do
      let errorMessage ← (Message.make none "ERROR").appendLastParameter reason
      let hub ← hub.send con errorMessage
      (hub.setStructure con .new).close con
  else .ok hub

def kill (hub : Hub) (src : Conn) (msg : Message) : Except Fault Hub :=
  if hub.checkServer src then
    match hub.net.getUser (msg.getParameter 0) with
    | none => .ok hub
    | some user => do
      let hub ← hub.dispatchServerMessage msg [src]
      let hub ← hub.disconnectLocal user (msg.getParameter 1)
      pure { hub with net := hub.net.userRemove user }
  else hub.replyError src .ERR_NOPRIVILEGES

/-! ## MAP -/

def sendMapReply (hub : Hub) (user : Ref) (text : String) : Except Fault Hub :=
  hub.reply (hub.net.user user).connection .RPL_MAP user [] (some text)

def sendMap (user : Ref) : Nat → Hub → String → Ref → Except Fault Hub
  | 0, _, _, _ => .error .stackOverflow
  | depth + 1, hub, mapPrefix, srv => do
    let s := hub.net.server srv
    let hub ← hub.sendMapReply user (mapPrefix ++ "S:" ++ s.name ++ ":" ++ toString s.token)
    let inner := mapPrefix ++ " "
    let hub ← s.users.foldlM
      (fun hub usr =>
        let u := hub.net.user usr
        hub.sendMapReply user (inner ++ "U:" ++ u.nick ++ "!" ++ u.ident ++ "@" ++ u.host)) hub
    s.children.foldlM (fun hub child => sendMap user depth hub inner child) hub

def map (hub : Hub) (src : Conn) : Except Fault Hub :=
  match hub.structures src with
  | .unregistered _ _ _ => hub.replyError src .ERR_NOTREGISTERED
  | .server _ => .ok hub
  | .user user =>
    match hub.net.getLocalServer with
    | none => .error .nullPointer
    | some self => do
      let hub ← sendMap user (hub.net.next + 1) hub "" self
      hub.reply (hub.net.user user).connection .RPL_MAPEND user [] none

/-! ## SERVER -/

def createServer (hub : Hub) (parent : Option Ref) (msg : Message) :
    Except Fault (Except Fault (Ref × Network)) := do
  let token ← parseInt (msg.getParameter 2)
  pure (hub.net.serverAdd (msg.getParameter 0) token parent)

def publishServer (hub : Hub) (newServer : Ref) (excluded : List Conn) : Except Fault Hub :=
  match (hub.net.server newServer).parent with
  | none => .error .nullPointer
  | some parent => do
    let msg ← hub.serverMessage (some (hub.net.server parent).name) newServer
    hub.dispatchServerMessage msg excluded

def serverInvoke (hub : Hub) (src : Conn) (self : Ref) (msg : Message) : Except Fault Hub := do
  let source := match msg.sender with
    | none => some self
    | some sender => hub.net.getServer sender
  match ← hub.createServer source msg with
  | .ok (newServer, net) => ({ hub with net := net } : Hub).publishServer newServer [src]
  | .error .alreadyExists => if source.isSome then pure hub else throw .nullPointer
  | .error e => throw e

def serverUnregisteredInvoke (hub : Hub) (src : Conn) (msg : Message) : Except Fault Hub := do
  match ← hub.createServer hub.net.getLocalServer msg with
  | .ok (newServer, net) =>
    let net := net.modifyServer newServer fun s => { s with connection := some src }
    let hub := ({ hub with net := net } : Hub).setStructure src (.server newServer)
    let hub ← hub.publishServer newServer [src]
    hub.sendNetSync src (!hub.locallyInitiated src)
  | .error .alreadyExists =>
    let errorMessage ← (Message.make none "ERROR").appendLastParameter
      (getResourceString Numerics.ERR_ALREADYREGISTRED.name)
    let hub ← hub.send src errorMessage
    hub.close src
  | .error e => throw e

def server (hub : Hub) (src : Conn) (msg : Message) : Except Fault Hub :=
  match hub.structures src with
  | .server self => hub.serverInvoke src self msg
  | .user _ => hub.replyError src .ERR_NOPRIVILEGES
  | .unregistered _ _ _ => hub.serverUnregisteredInvoke src msg

/-! ## PART -/

def partChannel (hub : Hub) (src : Conn) (user channel : Ref) (reason : Option String) :
    Except Fault Hub := do
  let nick := (hub.net.user user).nick
  let msg ← (Message.make (some nick) "PART").appendParameter (hub.net.channel channel).name
  let full ← msg.appendText reason
  let hub ← hub.dispatchUserMessage user full [src]
  let hub ← (if hub.net.isLocal user then hub.send src msg else pure hub)
  pure { hub with net := hub.net.userPart user channel }

def part (hub : Hub) (src : Conn) (msg : Message) : Except Fault Hub :=
  if ¬hub.checkRegistered src then hub.replyError src .ERR_NOTREGISTERED
  else match msg.params with
    | [] => hub.replyError src .ERR_NEEDMOREPARAMS
    | channelNames :: rest =>
      let names := splitComma channelNames
      match hub.source src msg with
      | none => if names = [] then .ok hub else .error .nullPointer
      | some user =>
        let channels := names.map fun name =>
          (hub.net.user user).channels.get (Locale.toLowerCase name)
        if none ∈ channels then hub.replyError src .ERR_NOSUCHCHANNEL
        else channels.reduceOption.foldlM
          (fun hub channel => hub.partChannel src user channel rest.head?) hub

/-! ## JOIN -/

def welcome (hub : Hub) (src : Conn) (user channel : Ref) : Except Fault Hub :=
  if hub.net.isLocal user then do
    let joinMessage ← (Message.make (some (hub.net.user user).nick) "JOIN").appendParameter
      (hub.net.channel channel).name
    let hub ← hub.send src joinMessage
    let hub ← hub.reply (some src) .RPL_NOTOPIC user [] none
    hub.sendNames user channel
  else .ok hub

def joinChannel (hub : Hub) (src : Conn) (user : Option Ref) (channelName : String) :
    Except Fault Hub := do
  let net ← hub.net.userJoin user channelName
  let hub := { hub with net := net }
  match user, hub.net.getChannel channelName with
  | some user, some channel => do
    let msg ← (Message.make (some (hub.net.user user).nick) "JOIN").appendParameter channelName
    let hub ← hub.dispatchUserMessage user msg [src]
    hub.welcome src user channel
  | _, _ => throw .nullPointer

def join (hub : Hub) (src : Conn) (msg : Message) : Except Fault Hub :=
  if ¬hub.checkRegistered src then hub.replyError src .ERR_NOTREGISTERED
  else match msg.params with
    | [] => hub.replyError src .ERR_NEEDMOREPARAMS
    | channelNames :: _ => do
      let names := splitComma channelNames
      -- the first name that is none ends the loop
      let ok ← names.foldlM (fun ok name => if ok then isChannelIdentifier name else pure false) true
      if ok then names.foldlM (fun hub' name => hub'.joinChannel src (hub.source src msg) name) hub
      else hub.replyError src .ERR_NOSUCHCHANNEL

/-! ## USER -/

/-- Both messages have come: the client becomes a user. -/
def unregisteredCheck (hub : Hub) (src : Conn) (nick ident realName : Option String) :
    Except Fault Hub :=
  if isEmpty nick ∨ isEmpty ident then .ok hub
  else
    match hub.net.getLocalServer with
    | none => .error .illegalArgument
    | some self =>
      match hub.net.userAdd self nick ident (hub.remoteHost src) realName with
      | .error .alreadyExists =>
        hub.userError src (getResourceString Numerics.ERR_NICKNAMEINUSE.name)
      | .error e => .error e
      | .ok (user, net) => do
        let net := net.modifyUser user fun u => { u with connection := some src }
        let hub := ({ hub with net := net } : Hub).setStructure src (.user user)
        let hub ← hub.dispatchNewUser user 0 []
        hub.userWelcome user

def user (hub : Hub) (src : Conn) (msg : Message) : Except Fault Hub :=
  match hub.structures src with
  | .unregistered nick _ _ =>
    if msg.parameterCount < 4 then hub.replyError src .ERR_NEEDMOREPARAMS
    else
      let ident := msg.getParameter 0
      let realName := msg.getParameter 3
      (hub.setStructure src (.unregistered nick ident realName)).unregisteredCheck src nick ident
        realName
  | _ => hub.replyError src .ERR_ALREADYREGISTRED

/-! ## NICK -/

def dispatchNickChange (hub : Hub) (user : Ref) (oldNick newNick : String) (excluded : List Conn) :
    Except Fault Hub := do
  let newNickMsg ← (Message.make (some oldNick) "NICK").appendParameter newNick
  let hub ← hub.dispatchUserMessage user newNickMsg excluded
  if hub.net.isLocal user then hub.sendTo (hub.net.user user).connection newNickMsg else pure hub

def nickCollisionReason : String := "Nick collision"

/-- Nothing for a nick that is null. -/
def dispatchNickCollision (hub : Hub) (user : Option Ref) (nick : Option String) :
    Except Fault Hub :=
  match nick with
  | none => .ok hub
  | some nick => do
    let msg ← (Message.make none "KILL").appendParameter nick
    let msg ← msg.appendLastParameter (some nickCollisionReason)
    match user with
    | some user => hub.dispatchUserMessage user msg []
    | none => hub.dispatchServerMessage msg []

def disconnectLocalNickCollision (hub : Hub) (user : Option Ref) : Except Fault Hub :=
  match user with
  | none => .ok hub
  | some user => hub.disconnectLocal user (some nickCollisionReason)

def removeUser (hub : Hub) (user : Option Ref) : Hub :=
  match user with
  | none => hub
  | some user => { hub with net := hub.net.userRemove user }

/-- The users are looked up before anything is done to them. -/
def handleNickCollision (hub : Hub) (nick1 nick2 : Option String) : Except Fault Hub := do
  let user1 := hub.net.getUser nick1
  let user2 := hub.net.getUser nick2
  let hub ← hub.dispatchNickCollision user1 nick1
  let hub ← hub.dispatchNickCollision user2 nick2
  let hub ← hub.disconnectLocalNickCollision user1
  let hub ← hub.disconnectLocalNickCollision user2
  pure ((hub.removeUser user1).removeUser user2)

def nickUserInvoke (hub : Hub) (src : Conn) (user : Ref) (msg : Message) : Except Fault Hub :=
  match msg.params with
  | [] => hub.replyError src .ERR_NEEDMOREPARAMS
  | newNick :: _ =>
    let oldNick := (hub.net.user user).nick
    if ¬isNickName newNick then hub.replyError src .ERR_ERRONEUSNICKNAME
    else if oldNick = newNick then .ok hub
    else match hub.net.userChangeNick (some user) newNick with
      | .error .alreadyExists => hub.replyError src .ERR_NICKNAMEINUSE
      | .error e => .error e
      | .ok net => ({ hub with net := net } : Hub).dispatchNickChange user oldNick newNick [src]

def nickChangeInvoke (hub : Hub) (src : Conn) (oldNick : Option String) (newNick : String) :
    Except Fault Hub :=
  let user := hub.net.getUser oldNick
  match user, hub.net.userChangeNick user newNick with
  | _, .error .alreadyExists => hub.handleNickCollision oldNick (some newNick)
  | _, .error e => .error e
  | some user, .ok net => ({ hub with net := net } : Hub).dispatchNickChange user (oldNick.getD "") newNick [src]
  | none, .ok _ => .error .nullPointer

def newUserInvoke (hub : Hub) (src : Conn) (msg : Message) : Except Fault Hub :=
  if msg.parameterCount < 7 then hub.replyError src .ERR_NEEDMOREPARAMS
  else do
    let hopcount ← parseInt (msg.getParameter 1)
    let serverToken ← parseInt (msg.getParameter 4)
    match hub.net.getServerByToken serverToken with
    | none => hub.replyError src .ERR_NOSUCHSERVER
    | some userServer =>
      match hub.net.userAdd userServer (msg.getParameter 0) (msg.getParameter 2)
        (msg.getParameter 3) (msg.getParameter 6) with
      | .error .alreadyExists => hub.handleNickCollision (msg.getParameter 0) none
      | .error e => throw e
      | .ok (user, net) => ({ hub with net := net } : Hub).dispatchNewUser user (Int.bmod (hopcount + 1) (2 ^ 32)) [src]

def nickUnregisteredInvoke (hub : Hub) (src : Conn) (ident realName : Option String)
    (msg : Message) : Except Fault Hub :=
  match msg.params with
  | [] => hub.replyError src .ERR_NEEDMOREPARAMS
  | nick :: _ =>
    if ¬isNickName nick then hub.replyError src .ERR_ERRONEUSNICKNAME
    else if (hub.net.getUser (some nick)).isSome then hub.replyError src .ERR_NICKNAMEINUSE
    else (hub.setStructure src (.unregistered (some nick) ident realName)).unregisteredCheck src
      (some nick) ident realName

/-- One parameter from a server is a change of nick, more are a new user. -/
def nick (hub : Hub) (src : Conn) (msg : Message) : Except Fault Hub :=
  match hub.structures src with
  | .server _ =>
    match msg.params with
    | [newNick] => hub.nickChangeInvoke src msg.sender newNick
    | _ => hub.newUserInvoke src msg
  | .user user => hub.nickUserInvoke src user msg
  | .unregistered _ ident realName => hub.nickUnregisteredInvoke src ident realName msg

/-! ## PING and QUIT -/

def ping (hub : Hub) (src : Conn) (msg : Message) : Except Fault Hub := do
  let response ← (Message.make none "PONG").appendLastParameter (msg.getParameter 0)
  hub.send src response

/-- A user who is not there ends in an exception, in the loop over the local users or in
`userRemove`. -/
def quitServerInvoke (hub : Hub) (src : Conn) (msg : Message) : Except Fault Hub :=
  match hub.net.getUser msg.sender with
  | none => .error .nullPointer
  | some user => do
    let hub ← hub.dispatchUserMessage user msg [src]
    pure { hub with net := hub.net.userRemove user }

def quitUserInvoke (hub : Hub) (src : Conn) (user : Ref) (msg : Message) : Except Fault Hub := do
  let dispatchMessage := Message.make (some (hub.net.user user).nick) "QUIT"
  let dispatchMessage ← dispatchMessage.appendText (msg.getParameter 0)
  let hub ← hub.dispatchUserMessage user dispatchMessage [src]
  let hub ← (hub.setStructure src .new).close src
  pure { hub with net := hub.net.userRemove user }

def quit (hub : Hub) (src : Conn) (msg : Message) : Except Fault Hub :=
  match hub.structures src with
  | .unregistered _ _ _ => hub.replyError src .ERR_NOTREGISTERED
  | .server _ => hub.quitServerInvoke src msg
  | .user user => hub.quitUserInvoke src user msg

/-! ## The commands by name -/

end Hub

inductive Command where
  | squit
  | kill
  | map
  | privmsg
  | notice
  | pong
  | ping
  | server
  | part
  | join
  | user
  | nick
  | quit
  deriving DecidableEq

/-- `CommandFactory.getCommand` -/
def getCommand (name : String) : Option Command :=
  match Locale.toUpperCase name with
  | "SQUIT" => some .squit
  | "KILL" => some .kill
  | "MAP" => some .map
  | "PRIVMSG" => some .privmsg
  | "NOTICE" => some .notice
  | "PONG" => some .pong
  | "PING" => some .ping
  | "SERVER" => some .server
  | "PART" => some .part
  | "JOIN" => some .join
  | "USER" => some .user
  | "NICK" => some .nick
  | "QUIT" => some .quit
  | _ => none

/-- A pong does not concern the network. -/
def Command.invoke (cmd : Command) (hub : Hub) (src : Conn) (msg : Message) : Except Fault Hub :=
  match cmd with
  | .squit => hub.squit src msg
  | .kill => hub.kill src msg
  | .map => hub.map src
  | .privmsg => hub.routeMessage src msg
  | .notice => hub.routeMessage src msg
  | .pong => .ok hub
  | .ping => hub.ping src msg
  | .server => hub.server src msg
  | .part => hub.part src msg
  | .join => hub.join src msg
  | .user => hub.user src msg
  | .nick => hub.nick src msg
  | .quit => hub.quit src msg

namespace Hub

/-- `receive` of the connection. -/
def receive (hub : Hub) (src : Conn) (message : Message) : Except Fault Hub :=
  match getCommand message.command with
  | some cmd => cmd.invoke hub src message
  | none => hub.replyError src .ERR_UNKNOWNCOMMAND

/-- `ConnectionOpenedCommand` -/
def connectionOpened (hub : Hub) (src : Conn) : Except Fault Hub :=
  let hub := hub.setStructure src .new
  if hub.locallyInitiated src then hub.sendSelf src else .ok hub

/-- The lines of a chunk that end in it, and what is left for the next one. -/
def lines (buffer : List Char) : List (List Char) × List Char :=
  let pieces := buffer.splitOnP fun c => c = '\r' || c = '\n'
  (pieces.dropLast.filter (· ≠ []), pieces.getLastD [])

/-- `Parser.readData`: each packet is decoded on its own. -/
def readData (hub : Hub) (src : Conn) (buffer : List Char) (data : List UInt8) :
    Except Fault (Hub × List Char) := do
  let (rawmsgs, rest) := lines (buffer ++ Utf8.decode data)
  let hub ← rawmsgs.foldlM (fun hub rawmsg => do hub.receive src (← parseRawMessage rawmsg)) hub
  pure (hub, rest)

end Hub

end MyLifeHome.Irc
