import MediaTransport.Ident

/-!
# Sessions

A media stream reaches its RTP session through one interface, whether it has the session to itself
or shares a translator with other streams. What can be asked is a type of calls, each with the type
of its answer; a stream that takes part in a translator adds its key to each call.
-/

namespace MediaTransport

/-- Why a session refuses. -/
inductive SessionError where
  | disposed
  | unknownStream (name : String)
  | unsupportedFormat (encoding : String)
  | io (message : String)
  deriving DecidableEq, Repr

/-- The text of an error. -/
def SessionError.message : SessionError → String
  | disposed => "Session is disposed"
  | unknownStream name => "Unknown stream: " ++ name
  | unsupportedFormat encoding => "Unsupported format: " ++ encoding
  | io message => message

/-- What is sent on a new stream. -/
structure MediaSource where
  encoding : String
  clockRate : UInt32
  /-- Number of streams that the source has. -/
  streamCount : Nat
  deriving DecidableEq, Repr

/-- What happens in a session. -/
inductive SessionEvent where
  | newReceiveStream (source : Ssrc)
  | receiveStreamTimeout (source : Ssrc)
  | goodbyeReceived (source : Ssrc)
  | newSendStream (stream : SendStreamId)
  | sendStreamClosed (stream : SendStreamId)
  | remoteReport (source : Ssrc)
  | collision (source : Ssrc)
  deriving DecidableEq, Repr

/-- The text of an event: its kind and the stream that it is about. -/
def SessionEvent.text (e : SessionEvent) : String :=
  let of (kind : String) (source : Ssrc) := kind ++ "(Ssrc(" ++ toString source ++ "))"
  let ofStream (kind : String) (stream : SendStreamId) :=
    kind ++ "(SendStreamId(" ++ toString stream ++ "))"
  match e with
  | newReceiveStream source => of "NewReceiveStream" source
  | receiveStreamTimeout source => of "ReceiveStreamTimeout" source
  | goodbyeReceived source => of "ByeReceived" source
  | newSendStream stream => ofStream "NewSendStream" stream
  | sendStreamClosed stream => ofStream "SendStreamClosed" stream
  | remoteReport source => of "RemoteReport" source
  | collision source => of "SsrcCollision" source

/-- What a session counts of what it received. -/
structure ReceptionTotals where
  packetsReceived : UInt64 := 0
  bytesReceived : UInt64 := 0
  badRtpPackets : UInt64 := 0
  rtcpReceived : UInt64 := 0
  senderReportsReceived : UInt64 := 0
  badRtcpPackets : UInt64 := 0
  packetsLooped : UInt64 := 0
  deriving DecidableEq, Repr

/-- What a session counts of what it sent. -/
structure TransmissionTotals where
  bytesSent : UInt64 := 0
  rtpSent : UInt64 := 0
  rtcpSent : UInt64 := 0
  transmitFailed : UInt64 := 0
  localCollisions : UInt64 := 0
  deriving DecidableEq, Repr

/-- What names a listener of a session. -/
abbrev SessionListenerId := Nat

/-- What a session can be asked, with the type of the answer. -/
inductive SessionCall : Type → Type where
  | addFormat (encoding : String) (payloadType : UInt8) : SessionCall Unit
  | addListener (listener : SessionListenerId) : SessionCall Unit
  | removeListener (listener : SessionListenerId) : SessionCall Unit
  | createSendStream (source : MediaSource) (index : Nat) :
      SessionCall (Except SessionError SendStreamId)
  | receptionTotals : SessionCall ReceptionTotals
  | transmissionTotals : SessionCall TransmissionTotals
  | localSsrc : SessionCall Ssrc
  | receiveStreams : SessionCall (List Ssrc)
  | sendStreams : SessionCall (List SendStreamId)
  | dispose : SessionCall Unit

/-- A session with states of type `σ`. -/
structure Session (σ : Type) where
  call : {α : Type} → SessionCall α → σ → α × σ

/-- A session that streams share, with states of type `σ`. -/
structure Translator (σ : Type) where
  call : {α : Type} → StreamKey → SessionCall α → σ → α × σ

/-- How a stream reaches its session. -/
inductive SessionAccess (σ : Type) where
  | direct (session : Session σ)
  | translated (translator : Translator σ) (key : StreamKey)

/-- Passes a call on to the session, or to the translator with the key of the stream. -/
def SessionAccess.call {σ α : Type} (m : SessionAccess σ) (c : SessionCall α) : σ → α × σ :=
  match m with
  | direct session => session.call c
  | translated translator key => translator.call key c

end MediaTransport
