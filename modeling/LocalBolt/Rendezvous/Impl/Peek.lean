import LocalBolt.Utf8.Basic

/-!
This module contains the part of `handle_connection` that looks at the first bytes of a connection.
-/

namespace LocalBolt

namespace Rendezvous

def peekBufLen : Nat := 4096

def healthCheckResponse : String :=
  let body := "bolt-rendezvous OK"
  "HTTP/1.1 200 OK\r\nContent-Type: text/plain\r\nContent-Length: " ++ toString body.utf8ByteSize
    ++ "\r\nConnection: close\r\n\r\n" ++ body

inductive AfterPeek where
  | handshake
  | respond (response : String)
  | giveUp
  deriving DecidableEq

/--
The argument is what `peek` returns.
-/
def afterPeek : Option (List UInt8) → AfterPeek
  | some bytes =>
    let preview := Utf8.fromUtf8Lossy bytes
    if "upgrade: websocket".toList <:+: preview.map Char.toLower then .handshake
    else .respond healthCheckResponse
  | none => .giveUp

end Rendezvous

end LocalBolt
