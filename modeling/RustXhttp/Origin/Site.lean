import RustXhttp.Origin.Http
import Mathlib.Data.List.AList

/-!
# The website (`src/site.rs`, and `site_response` of `src/origin.rs`)

A site is loaded before the listener starts, and a request is a lookup in it. How the site is
built does not matter here: the assets are given.
-/

namespace Xhttp.Http

structure Asset where
  contentType : Bytes
  body : Bytes
  cacheControl : Bytes
  etag : Bytes
  lastModified : Bytes
  deriving DecidableEq

structure StaticReply extends Asset where
  status : Nat
  allow : Option Bytes
  deriving DecidableEq

def Asset.reply (a : Asset) (status : Nat) : StaticReply := { a with status, allow := none }

structure StaticSite where
  assets : AList fun _ : Bytes => Asset
  notFound : Asset
  methodNotAllowed : Asset

def StaticSite.resolve (site : StaticSite) (method : Method) (path : Bytes) : StaticReply :=
  if method ≠ .get ∧ method ≠ .head then
    { site.methodNotAllowed.reply 405 with allow := some (ascii "GET, HEAD") }
  else
    match site.assets.lookup path with
    | some asset => asset.reply 200
    | none => site.notFound.reply 404

/-- `site_response`, of what it reads of the request. -/
def StaticSite.respond (site : StaticSite) (method : Method) (path : Bytes)
    (ifNoneMatch : Option Bytes) : Response :=
  let reply := site.resolve method path
  let notModified := ifNoneMatch == some reply.etag
  let body := if method = .head ∨ notModified then .empty else .full reply.body
  let status := if notModified then 304 else reply.status
  let contentLength :=
    if notModified then [] else [("content-length", decimal reply.body.length)]
  let allow := reply.allow.toList.map fun allow => ("allow", allow)
  (response status body).insertAll
    (("content-type", reply.contentType) :: contentLength ++
      [("cache-control", reply.cacheControl), ("etag", reply.etag),
        ("last-modified", reply.lastModified), ("x-content-type-options", ascii "nosniff"),
        ("referrer-policy", ascii "strict-origin-when-cross-origin")] ++ allow)

end Xhttp.Http
