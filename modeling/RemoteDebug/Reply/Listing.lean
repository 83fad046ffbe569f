import RemoteDebug.Reply.Buffer

/-!
# Thread listings

A listing of threads that does not fit into one reply goes out in pages: `m` and as many names as fit, separated by
commas. The page after the last name is `l`.
-/

namespace RemoteDebug.Reply

/-- Adds names, each behind a comma, while they fit; the names left over are for later pages. -/
def addNames (buf : Buffer) : List Ptid → Buffer × List Ptid
  | [] => (buf, [])
  | t :: rest =>
    match buf.writeAll [.text (ascii ","), .ptid t] with
    | (.ok (), buf) => addNames buf rest
    | (.error _, _) => (buf, t :: rest)

/-- The next page of a listing and the names left over; no page if not even one name fits. -/
def page (capacity : Nat) : List Ptid → Option (List UInt8) × List Ptid
  | [] => (render capacity [.text (ascii "l")], [])
  | t :: rest =>
    match (Buffer.empty capacity).writeAll [.text (ascii "m"), .ptid t] with
    | (.error _, _) => (none, t :: rest)
    | (.ok (), buf) =>
      let (buf, left) := addNames buf rest
      (some buf.bytes, left)

end RemoteDebug.Reply
