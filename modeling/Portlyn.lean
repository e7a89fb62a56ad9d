import Portlyn.Accesslog
import Portlyn.Audit.Shutdown
import Portlyn.Audit.Isolation
import Portlyn.Audit.Reader
import Portlyn.Auth.Challenges
import Portlyn.Auth.Totp
import Portlyn.Auth.RecoveryCodes
import Portlyn.Auth.Credentials
import Portlyn.Auth.BridgeTokens
import Portlyn.Auth.Ceremonies
import Portlyn.Auth.PasskeyLogins
import Portlyn.Auth.SharedCache
import Portlyn.Proxy.RouteSelection
import Portlyn.Proxy.Windows
import Portlyn.Proxy.Credentials
import Portlyn.Tunnel.Forwarder
import Portlyn.Netguard
import Portlyn.Tunnel.Revocation
import Portlyn.Http.LastAdmin
import Portlyn.Http.OidcSignIn
import Portlyn.Http.BreakGlass
import Portlyn.Http.Csrf
import Portlyn.Http.RouteEmails
import Portlyn.Http.Rotation
import Portlyn.Acme.Locks
import Portlyn.Acme.Retry
import Portlyn.Proxy.Breaker
import Portlyn.Selfupdate.Install
import Portlyn.Http.SecurityAlerts
import Portlyn.Proxy.DenialThrottle
