import Gts3.Http.Response
import Gts3.Http.Segmentation

/-!
# `gts/web/service/service_io.cpp`: the response before any handler runs

`serviceIo` is the response as the constructor of `service_io` leaves it; the header `origin` of the request stands in
it under `access-control-allow-origin`.
-/

namespace Gts3.Web

open Lib Lib.Search Lib.Cxx Lib.HttpMessage Gts3.Http

/-- The header an origin is reflected in. -/
def allowOrigin : Bytes := lit "access-control-allow-origin"

/-- `service_io`: the response to a request, before any handler runs. -/
def serviceIo (request : Request) : Response :=
  let response := (Response.new request).setHeader (lit "server") (lit "gts3")
  let response := match request.headers.find? (lit "origin") with
    | none => response
    | some v => response.setHeader allowOrigin v
  if request.version = lit "1.1" then
    if request.keepAlive then response else response.setHeader (lit "connection") (lit "close")
  else response

/-! ## What is in it -/

theorem find?_setHeader (resp : Response) (key key' value : Bytes) :
    (resp.setHeader key value).headers.find? key' =
      if SameName key key' then some value else resp.headers.find? key' := by
  rw [Response.setHeader, OrdMap.find?_assign, if_congr (same_lessCaseInsensitive key key') rfl rfl]

/-- Headers are all that the constructor of `service_io` sets. -/
theorem serviceIo_eq (request : Request) :
    ∃ headers, serviceIo request = { Response.new request with headers := headers } := by
  rw [serviceIo]
  cases request.headers.find? (lit "origin") <;> simp only <;> split_ifs <;> exact ⟨_, rfl⟩

theorem request_serviceIo (request : Request) : (serviceIo request).request = request := by
  obtain ⟨headers, heq⟩ := serviceIo_eq request
  rw [heq, Response.new]

theorem status_serviceIo (request : Request) : (serviceIo request).status = .ok := by
  obtain ⟨headers, heq⟩ := serviceIo_eq request
  rw [heq, Response.new]

theorem cookies_serviceIo (request : Request) : (serviceIo request).cookies = UMap.empty := by
  obtain ⟨headers, heq⟩ := serviceIo_eq request
  rw [heq, Response.new]

theorem headersWrited_serviceIo (request : Request) : (serviceIo request).headersWrited = false := by
  obtain ⟨headers, heq⟩ := serviceIo_eq request
  rw [heq, Response.new]

end Gts3.Web
