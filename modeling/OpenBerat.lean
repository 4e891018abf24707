import OpenBerat.Cache.Conservation
import OpenBerat.Cache.Drain
import OpenBerat.Cache.Representation
import OpenBerat.Deployment.Answers
import OpenBerat.Explain
import OpenBerat.Flight
import OpenBerat.Kill.Index
import OpenBerat.Kill.Retry
import OpenBerat.Kill.Sessions
import OpenBerat.Kill.Window
import OpenBerat.Manage.Edge
import OpenBerat.Neighbours
import OpenBerat.Policy.Coincide
import OpenBerat.Policy.Rewriting
import OpenBerat.Policy.RuleSet
import OpenBerat.Policy.Trace
import OpenBerat.Nginx.CookieMap
import OpenBerat.Nginx.Gates
import OpenBerat.Nginx.Publish
import OpenBerat.Nginx.Reload
import OpenBerat.Portal
import OpenBerat.Relay
import OpenBerat.Reset
import OpenBerat.Retention
import OpenBerat.Schema
import OpenBerat.Ticket
import OpenBerat.Upstream
